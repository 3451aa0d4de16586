import ToolGraph.Proofs.Failure
import ToolGraph.Proofs.Load.Confluence
import ToolGraph.Proofs.Shared

/-!
How a failure tells where it comes from. It is named by the references that first led from the root to
the source that fails, one inside the other. The loader goes back along them by its table of first
references. It goes on past the root where some reference leads back to that.
-/
namespace ToolGraph

/-- A failure named by references on the way to it, the outermost first: the tool that refers, and the
reference. -/
def Error.along (hops : List (String × String)) (error : Error) : Error :=
  hops.foldr (fun hop cause => .resolution hop.1 hop.2 cause) error

theorem Error.along_append (outer inner : List (String × String)) (error : Error) :
    error.along (outer ++ inner) = (error.along inner).along outer := List.foldr_append

/-- A failure of one reference, which it names. What it comes from names no other one. -/
inductive Error.At (tool reference : String) : Error → Prop where
  | empty : At tool reference (.emptyReference tool reference)
  | unknown (name : String) : At tool reference (.unknownBuiltin tool reference name)
  | cause {error : Error} (plain : error.class? ≠ some .resolution) :
      At tool reference (.resolution tool reference error)

theorem Error.At.plain {tool reference fromTool written : String} {cause : Error}
    (named : (Error.resolution fromTool written cause).At tool reference) :
    cause.class? ≠ some .resolution := by
  cases named with
  | cause plain => exact plain

theorem Error.at_onReference {error : Error} (plain : error.class? ≠ some .resolution)
    (tool reference : String) :
    (∃ fault, error.onReference tool reference = .bare fault) ∨
      (error.onReference tool reference).At tool reference := by
  cases error with
  | bare fault => exact .inl ⟨fault, rfl⟩
  | emptyReference | unknownBuiltin | resolution => exact absurd rfl plain
  | config | artifact | source | timeout | parse | conversion | entryNotFound =>
    exact .inr (.cause plain)

theorem Error.OfContent.plain {error : Error} (known : error.OfContent) :
    error.class? ≠ some .resolution := by
  cases known <;> simp [Error.class?]

theorem Error.OfFetch.plain {error : Error} (known : error.OfFetch) :
    error.class? ≠ some .resolution := by
  cases known <;> simp [Error.class?]

namespace Load
open Entries

/-! ### Going back -/

inductive Trail (load : Load) : List (List Char) → List Char → List (String × String) → Prop where
  | origin {seen : List (List Char)} {location : List Char}
      (first : load.referrers.get? location = none) : Trail load seen location []
  | again {seen : List (List Char)} {location : List Char} {hop : String × String}
      (led : load.referrers.get? location = some hop) (known : load.originOf hop.1 ∈ seen) :
      Trail load seen location [hop]
  | back {seen : List (List Char)} {location : List Char} {hop : String × String}
      {hops : List (String × String)} (led : load.referrers.get? location = some hop)
      (new : load.originOf hop.1 ∉ seen)
      (rest : Trail load (load.originOf hop.1 :: seen) (load.originOf hop.1) hops) :
      Trail load seen location (hops ++ [hop])

def unseen (load : Load) (seen : List (List Char)) : List (List Char) :=
  load.referrers.keys.filter (fun location => !seen.contains location)

theorem length_unseen_cons_lt {load : Load} {seen : List (List Char)} {location : List Char}
    (known : location ∈ load.referrers.keys) (new : location ∉ seen) :
    (load.unseen (location :: seen)).length < (load.unseen seen).length := by
  have split : load.unseen (location :: seen) =
      (load.unseen seen).filter (fun other => !location == other) := by
    simp only [unseen, List.filter_filter]
    apply List.filter_congr
    intro other _
    by_cases same : other = location
    · simp [same]
    · simp [same, Ne.symm same]
  rw [split]
  apply List.length_filter_lt_length_iff_exists.mpr
  exact ⟨location, List.mem_filter.mpr ⟨known, by simpa using new⟩, by simp⟩

theorem traceBack_eq (load : Load) {bound : Nat} {seen : List (List Char)} {location : List Char}
    (enough : (load.unseen seen).length < bound ∨ load.referrers.get? location = none) :
    ∃ hops, Trail load seen location hops ∧
      ∀ error, load.traceBack bound seen location error = error.along hops := by
  induction bound generalizing seen location with
  | zero =>
    have first := enough.resolve_left (Nat.not_lt_zero _)
    exact ⟨[], .origin first, fun error => rfl⟩
  | succ bound ih =>
    cases led : load.referrers.get? location with
    | none => exact ⟨[], .origin led, fun error => by simp only [traceBack, led]; rfl⟩
    | some hop =>
      by_cases known : load.originOf hop.1 ∈ seen
      · refine ⟨[hop], .again led known, fun error => ?_⟩
        simp only [traceBack, led, List.contains_iff_mem, if_pos known]
        rfl
      · have less : (load.unseen (load.originOf hop.1 :: seen)).length < bound ∨
            load.referrers.get? (load.originOf hop.1) = none := by
          have enough := enough.resolve_right (by simp [led])
          by_cases referred : load.originOf hop.1 ∈ load.referrers.keys
          · have fewer := length_unseen_cons_lt referred known
            omega
          · exact .inr (get?_eq_none_iff.mpr referred)
        obtain ⟨hops, trail, same⟩ := ih less
        refine ⟨hops ++ [hop], .back led known trail, fun error => ?_⟩
        simp only [traceBack, led, List.contains_iff_mem, if_neg known, same]
        exact (Error.along_append hops [hop] error).symm

theorem failure_eq (load : Load) (location : List Char) :
    ∃ hops, Trail load [location] location hops ∧ ∀ error, (∀ fault, error ≠ .bare fault) →
      load.failure location error = error.along hops := by
  have enough : (load.unseen [location]).length < load.referrers.length + 1 := by
    have shorter := List.length_filter_le (fun other => !List.contains [location] other)
      load.referrers.keys
    rw [keys, List.length_map] at shorter
    exact Nat.lt_succ_of_le shorter
  obtain ⟨hops, trail, same⟩ := @traceBack_eq load _ _ location (.inl enough)
  refine ⟨hops, trail, fun error named => ?_⟩
  rw [← same error]
  unfold failure
  split
  next fault => exact absurd rfl (named fault)
  next => rfl

theorem Trail.getLast?_eq {load : Load} {seen : List (List Char)} {location : List Char}
    {hops : List (String × String)} (trail : Trail load seen location hops) :
    hops.getLast? = load.referrers.get? location := by
  cases trail with
  | origin first => simp [first]
  | again led => simp [led]
  | back led => simp [led]

/-! ### The way from the root -/

/-- The first references on the way from the root to a location, the outermost first, and the locations
that they are made at, the last one first. Each reference leads to the location of the next one, and no
location comes twice. -/
inductive Way (context : LoadContext) (load : Load) (root : List Char) :
    List (String × String) → List (List Char) → List Char → Prop where
  | root : Way context load root [] [] root
  | next {hops : List (String × String)} {places : List (List Char)} {next : List Char} {tool : Tool}
      {reference subTool : String}
      (way : Way context load root hops places tool.origin.location.toList)
      (refers : Refers load tool.origin.location.toList tool reference)
      (leads : Destination.find context.outlook tool reference = .ok (.source next subTool))
      (led : load.referrers.get? next = some (tool.id, reference))
      (fresh : next ∉ tool.origin.location.toList :: places) :
      Way context load root (hops ++ [(tool.id, reference)])
        (tool.origin.location.toList :: places) next

section ways
variable {context : LoadContext} {answers : Answers} {root : List Char} {first : Source}
  {load later : Load}

theorem Way.grow {hops : List (String × String)} {places : List (List Char)} {location : List Char}
    (way : Way context load root hops places location) (stored : AllStored load)
    (grows : Grows load later)
    (kept : ∀ {place hop}, load.referrers.get? place = some hop →
      later.referrers.get? place = some hop) : Way context later root hops places location := by
  induction way with
  | root => exact .root
  | next _ refers leads led fresh ih =>
    exact .next ih (refers.grow stored grows) leads (kept led) fresh

theorem Way.nodup {hops : List (String × String)} {places : List (List Char)}
    {location : List Char} (way : Way context load root hops places location) :
    (location :: places).Nodup := by
  induction way with
  | root => exact List.nodup_singleton root
  | next _ _ _ _ fresh ih => exact List.nodup_cons.mpr ⟨fresh, ih⟩

theorem Sound.originOf (sound : Sound context answers root first load) {origin : List Char}
    {tool : Tool} {reference : String} (refers : Refers load origin tool reference) :
    load.originOf tool.id = tool.origin.location.toList := by
  obtain ⟨⟨id, found⟩, -⟩ := refers.tool
  obtain rfl := sound.tool_id found
  simp only [Load.originOf, found]

theorem Way.trail (sound : Sound context answers root first load) {hops all : List (String × String)}
    {places seen : List (List Char)} {location : List Char}
    (way : Way context load root hops places location) (new : ∀ place ∈ places, place ∉ seen)
    (trail : Trail load seen location all) :
    ∃ extra seen, all = extra ++ hops ∧ Trail load seen root extra := by
  induction way generalizing seen all with
  | root => exact ⟨all, seen, (List.append_nil all).symm, trail⟩
  | @next hops places location tool reference subTool way refers leads led fresh ih =>
    have origin := sound.originOf refers
    cases trail with
    | origin first => simp [first] at led
    | again led' known =>
      obtain rfl := Option.some.inj (led'.symm.trans led)
      exact absurd (origin ▸ known) (new _ List.mem_cons_self)
    | @back _ _ hop earlier led' _ rest =>
      obtain rfl := Option.some.inj (led'.symm.trans led)
      rw [origin] at rest
      have apart : ∀ place ∈ places, place ∉ tool.origin.location.toList :: seen := by
        intro place member again
        rcases List.mem_cons.mp again with rfl | old
        · exact (List.nodup_cons.mp way.nodup).1 member
        · exact new place (List.mem_cons_of_mem _ member) old
      obtain ⟨extra, seen, rfl, beyond⟩ := ih apart rest
      exact ⟨extra, seen, List.append_assoc extra hops _, beyond⟩

/-- Every source lies where it was looked for, and references are followed for the tools of that source.
Artifacts may tell otherwise of tools that have an id of another source. -/
structure Straight (load : Load) : Prop where
  found : ∀ {location source}, load.source? location = some source → source.location = location
  own : ∀ {origin tool reference}, Refers load origin tool reference →
    tool.origin.location.toList = origin

theorem Straight.earlier (straight : later.Straight) (stored : AllStored load)
    (grows : Grows load later) : load.Straight :=
  ⟨fun found => straight.found (grows.sources found),
    fun refers => straight.own (refers.grow stored grows)⟩

/-! ### Every location has its way -/

/-- Referrers are those of locations that the load knows, and all of these are on a way from the root. -/
structure Traceable (context : LoadContext) (root : List Char) (load : Load) : Prop where
  referred : load.referrers.keys ⊆ load.sources.keys
  led : ∀ {location hop}, load.referrers.get? location = some hop → ∃ origin tool reference subTool,
    hop = (tool.id, reference) ∧ Refers load origin tool reference ∧
      Destination.find context.outlook tool reference = .ok (.source location subTool)
  way : ∀ {location}, location ∈ load.sources.keys → ∃ hops places,
    Way context load root hops places location ∧ places ⊆ load.sources.keys

theorem Traceable.keep (traceable : Traceable context root load) (stored : AllStored load)
    (grows : Grows load later) (referrers : later.referrers = load.referrers)
    (known : later.sources.keys = load.sources.keys) : Traceable context root later where
  referred := by
    rw [referrers, known]
    exact traceable.referred
  led := by
    intro location hop led
    rw [referrers] at led
    obtain ⟨origin, tool, reference, subTool, same, refers, leads⟩ := traceable.led led
    exact ⟨origin, tool, reference, subTool, same, refers.grow stored grows, leads⟩
  way := by
    intro location member
    rw [known] at member ⊢
    obtain ⟨hops, places, way, inside⟩ := traceable.way member
    exact ⟨hops, places, way.grow stored grows (fun led => by rw [referrers]; exact led), inside⟩

theorem Traceable.refer (traceable : Traceable context root load)
    (sound : Sound context answers root first load) (straight : load.Straight) {origin : List Char}
    {tool : Tool} {reference subTool : String} {location : List Char}
    (refers : Refers load origin tool reference)
    (leads : Destination.find context.outlook tool reference = .ok (.source location subTool))
    {later : Load} (grows : Grows load later)
    (referrers : later.referrers = load.referrers.putNew location (tool.id, reference))
    (known : ∀ place, place ∈ later.sources.keys ↔ place = location ∨ place ∈ load.sources.keys) :
    Traceable context root later where
  referred := by
    intro place member
    rw [referrers, mem_keys_putNew] at member
    exact (known place).mpr (member.imp id (fun old => traceable.referred old))
  led := by
    intro place hop led
    rw [referrers, get?_putNew, Option.or_eq_some_iff] at led
    rcases led with old | ⟨-, new⟩
    · obtain ⟨origin, tool, reference, subTool, same, refers, leads⟩ := traceable.led old
      exact ⟨origin, tool, reference, subTool, same, refers.grow sound.stored grows, leads⟩
    · split at new
      next same =>
        obtain rfl := same
        exact ⟨origin, tool, reference, subTool, (Option.some.inj new).symm,
          refers.grow sound.stored grows, leads⟩
      next => simp at new
  way := by
    have kept : ∀ {place hop}, load.referrers.get? place = some hop →
        later.referrers.get? place = some hop := by
      intro place hop led
      rw [referrers, get?_putNew, led, Option.some_or]
    have old : ∀ {place}, place ∈ load.sources.keys → ∃ hops places,
        Way context later root hops places place ∧ places ⊆ load.sources.keys := by
      intro place member
      obtain ⟨hops, places, way, inside⟩ := traceable.way member
      exact ⟨hops, places, way.grow sound.stored grows kept, inside⟩
    have wider : ∀ {places : List (List Char)}, places ⊆ load.sources.keys →
        places ⊆ later.sources.keys :=
      fun inside _ member => (known _).mpr (.inr (inside member))
    intro place member
    by_cases before : place ∈ load.sources.keys
    · obtain ⟨hops, places, way, inside⟩ := old before
      exact ⟨hops, places, way, wider inside⟩
    · obtain rfl := ((known place).mp member).resolve_right before
      obtain ⟨at_, source, found, rfl, -⟩ := id refers
      have here := straight.found found
      have home := straight.own refers
      rw [here] at home
      have near : at_ ∈ load.sources.keys := mem_keys_of_source? found
      obtain ⟨hops, places, way, inside⟩ := old near
      rw [← home] at way
      have all : tool.origin.location.toList :: places ⊆ load.sources.keys :=
        List.cons_subset.mpr ⟨home ▸ near, inside⟩
      refine ⟨_, _, .next way ?_ leads ?_ (fun again => before (all again)), wider all⟩
      · rw [home, ← here]
        exact refers.grow sound.stored grows
      · have none : load.referrers.get? place = none :=
          get?_eq_none_iff.mpr (fun led => before (traceable.referred led))
        rw [referrers, get?_putNew, none, Option.none_or, if_pos rfl]

theorem Traceable.follow (traceable : Traceable context root load)
    (sound : Sound context answers root first load) (straight : load.Straight) {origin : List Char}
    {tool : Tool} {reference : String} (refers : Refers load origin tool reference) :
    Traceable context root (follow context origin tool reference load).1 := by
  have stored : AllStored load := sound.stored
  have grows := grows_follow context origin tool reference load
  rcases follow_cases context origin tool reference load with
    ⟨error, -, moved⟩ | ⟨id, -, moved⟩ | ⟨target, -, moved⟩ |
    ⟨location, subTool, source, id, leads, found, -, moved⟩ |
    ⟨location, subTool, source, error, leads, found, -, moved⟩ |
    ⟨location, subTool, leads, -, moved⟩
  all_goals rw [moved] at grows ⊢
  case inl => exact traceable
  case inr.inl => exact traceable.keep stored grows rfl rfl
  case inr.inr.inl => exact traceable.keep stored grows rfl rfl
  case inr.inr.inr.inl =>
    have known : location ∈ load.sources.keys := mem_keys_of_source? found
    refine traceable.refer sound straight refers leads grows rfl (fun place => ⟨.inr, ?_⟩)
    exact fun either => either.elim (fun same => same ▸ known) (fun old => old)
  case inr.inr.inr.inr.inl =>
    have known : location ∈ load.sources.keys := mem_keys_of_source? found
    refine traceable.refer sound straight refers leads grows rfl (fun place => ⟨.inr, ?_⟩)
    exact fun either => either.elim (fun same => same ▸ known) (fun old => old)
  case inr.inr.inr.inr.inr =>
    exact traceable.refer sound straight refers leads grows rfl (fun place => mem_keys_putNew)

theorem traceable_rooted (context : LoadContext) (root : List Char) (first : Source) :
    Traceable context root (Progress.rooted root first).load where
  referred := List.nil_subset _
  led := by
    intro location hop led
    simp [Progress.rooted, Progress.register, addTools, start] at led
  way := by
    intro location member
    rcases mem_keys_put.mp member with rfl | old
    · exact ⟨[], [], .root, List.nil_subset _⟩
    · simp [start, keys] at old

theorem Traceable.step {state later : Progress}
    (traceable : Traceable context root state.load)
    (sound : state.Sound context answers root first) (straight : state.load.Straight)
    (step : Step context answers state later) : Traceable context root later.load := by
  have stored : AllStored state.load := sound.load.stored
  have grows := step.grows
  cases step with
  | lose | openSource | cancelJob => exact traceable
  | giveUp | cancelWaiter => exact traceable.keep stored grows rfl rfl
  | arrive awaited =>
    exact traceable.keep stored grows rfl
      ((keys_put state.load.sources _ _).trans (if_pos (mem_keys_of_get? awaited)))
  | perform next =>
    rw [load_perform]
    exact traceable.follow sound.load straight (sound.jobs (next ▸ List.mem_append_cons_self))
  | @resume waiter source before after =>
    refine traceable.keep stored grows ?_ ?_
    all_goals
      unfold Progress.answer linkSelected
      cases source.select waiter.subTool <;> rfl

theorem Traceable.steps {state : Progress}
    (steps : Steps context answers (Progress.rooted root first) state)
    (straight : state.load.Straight) : Traceable context root state.load := by
  induction steps with
  | refl => exact traceable_rooted context root first
  | tail steps step ih =>
    have sound := (Progress.sound_rooted context answers root first).steps steps
    have before := straight.earlier sound.load.stored step.grows
    exact (ih before).step sound before step

end ways

/-! ### Failures of references -/

theorem find_error {outlook : Outlook} {tool : Tool} {reference : String} {error : Error}
    (leads : Destination.find outlook tool reference = .error error) :
    error = .emptyReference tool.id reference ∨
      (∃ name, error = .unknownBuiltin tool.id reference name) ∨ ∃ written base cause,
        outlook.locate written base = .error cause ∧ error = cause.onReference tool.id reference := by
  unfold Destination.find at leads
  simp only at leads
  split at leads
  next => exact .inl (Except.error.inj leads).symm
  next =>
    split at leads
    next => simp at leads
    next =>
      split at leads
      next =>
        split at leads
        next => simp at leads
        next => exact .inr (.inl ⟨_, (Except.error.inj leads).symm⟩)
      next =>
        split at leads
        next => simp at leads
        next cause refused => exact .inr (.inr ⟨_, _, cause, refused, (Except.error.inj leads).symm⟩)

theorem locate_plain {request : LoadRequest} {place : Canonical.Place} {written base : List Char}
    {error : Error}
    (refused : (request.contextAt place).outlook.locate written base = .error error) :
    error.class? ≠ some .resolution := by
  unfold Outlook.locate at refused
  split at refused
  next => exact (Canonical.failsAs_location _ _ error refused).plain
  next => exact Except.error.inj refused ▸ (Error.OfFetch.bare _).plain

theorem select_plain {source : Source} {name : String} {error : Error}
    (refused : source.select name = .error error) : error.class? ≠ some .resolution := by
  unfold Source.select at refused
  split at refused
  next => simp at refused
  next =>
    split at refused
    next => simp at refused
    next =>
      obtain rfl := Except.error.inj refused
      simp [Error.class?]

theorem answer_plain {request : LoadRequest} {world : World} {location : List Char}
    {result : Except Error Fetched} {base : List Char} {model : String} {error : Error}
    (answer : world.answers request location result)
    (refused : result.bind (Source.read base model) = .error error) :
    error.class? ≠ some .resolution := by
  cases result with
  | error cause =>
    obtain ⟨later, -, fetched⟩ := answer
    obtain rfl := Except.error.inj refused
    exact (Fetch.failsAs_location _ _ _ cause fetched).plain
  | ok fetched => exact (Source.failsAs_read base model fetched error refused).plain

theorem at_of_fails {request : LoadRequest} {world : World} {root : List Char} {load : Load}
    {tool : Tool} {reference : String} {error : Error}
    (fails : Fails (request.context world) (world.answers request) root load tool reference error) :
    (∃ fault, error = .bare fault) ∨ error.At tool.id reference := by
  cases fails with
  | nowhere leads =>
    rcases find_error leads with rfl | ⟨name, rfl⟩ | ⟨written, base, cause, refused, rfl⟩
    · exact .inr .empty
    · exact .inr (.unknown name)
    · exact Error.at_onReference (locate_plain refused) tool.id reference
  | unnamed _ _ refused => exact Error.at_onReference (select_plain refused) tool.id reference
  | lost _ _ answer refused => exact Error.at_onReference (answer_plain answer refused) tool.id reference

/-! ### Failures of loads -/

/-- A failure of a reference is raised under the names of the references on the way to it. The way goes
from the root to the source that refers, each of its references leads to the source of the next one, and
no source comes twice. Where the root is referred to itself, more references stand in front, and the last
of them is the first one that leads to the root. -/
structure RaisedFrom (context : LoadContext) (load : Load) (root origin : List Char)
    (cause raised : Error) (extra hops : List (String × String)) (places : List (List Char)) : Prop where
  way : Way context load root hops places origin
  at_ : ∃ tool reference, Refers load origin tool reference ∧ cause.At tool.id reference
  raised : raised = cause.along (extra ++ hops)
  beyond : extra.getLast? = load.referrers.get? root
  back : ∀ hop ∈ extra.getLast?, ∃ origin tool reference subTool, hop = (tool.id, reference) ∧
    Refers load origin tool reference ∧
      Destination.find context.outlook tool reference = .ok (.source root subTool)

theorem raisedFrom_of_failure {request : LoadRequest} {world : World} {root : List Char}
    {first : Source} {state : Progress} {origin : List Char} {cause : Error}
    (steps : Steps (request.context world) (world.answers request) (Progress.rooted root first) state)
    (failed : (origin, cause) ∈ state.failures) (straight : state.load.Straight)
    (named : ∀ fault, cause ≠ .bare fault) : ∃ extra hops places,
      RaisedFrom (request.context world) state.load root origin cause
        (state.load.failure origin cause) extra hops places := by
  have sound := (Progress.sound_rooted _ _ root first).steps steps
  have traceable := Traceable.steps steps straight
  obtain ⟨tool, reference, refers, fails⟩ := sound.failures failed
  have at_ := (at_of_fails fails).resolve_left (fun ⟨fault, same⟩ => named fault same)
  obtain ⟨place, source, found, same, -⟩ := id refers
  have here : origin ∈ state.load.sources.keys := by
    rw [← same, straight.found found]
    exact mem_keys_of_source? found
  obtain ⟨hops, places, way, -⟩ := traceable.way here
  obtain ⟨all, trail, raised⟩ := state.load.failure_eq origin
  have apart : ∀ other ∈ places, other ∉ [origin] := by
    intro other member again
    obtain rfl := List.mem_singleton.mp again
    exact (List.nodup_cons.mp way.nodup).1 member
  obtain ⟨extra, seen, rfl, beyond⟩ := way.trail sound.load apart trail
  refine ⟨extra, hops, places, way, ⟨tool, reference, refers, at_⟩, raised cause named,
    beyond.getLast?_eq, ?_⟩
  intro hop last
  exact traceable.led (beyond.getLast?_eq.symm.trans last)

/-- Whatever a load fails with, in any order of its tasks: it is no failure of a reference, or it is one
below the root that is named by the way to it. -/
theorem failure_provenance {request : LoadRequest} {world : World} {error : Error}
    (outcome : Outcome request world.place (world.answers request) (.error error)) :
    error.class? ≠ some .resolution ∨ ∃ root first state origin cause,
      RootRead request world.place (world.answers request) root first ∧
        Steps (request.context world) (world.answers request) (Progress.rooted root first) state ∧
        (origin, cause) ∈ state.failures ∧ error = state.load.failure origin cause ∧
        (state.load.Straight → ∃ extra hops places,
          RaisedFrom (request.context world) state.load root origin cause error extra hops places) := by
  cases outcome with
  | late => exact .inl (by simp [timeUp, Error.class?])
  | noLocation refused =>
    unfold LoadRequest.rootLocation at refused
    split at refused
    next => simp at refused
    next => exact .inl (locate_plain refused)
  | @noRoot location result _ found refused =>
    cases rooted : request.root with
    | reference text =>
      have answer := found.2
      simp only [RootAnswers, rooted] at answer
      exact .inl (answer_plain answer refused)
    | text content place =>
      have answer := found.2
      simp only [RootAnswers, rooted] at answer
      subst answer
      exact .inl (Source.failsAs_read _ _ _ error refused).plain
  | noEntry _ refused => exact .inl (select_plain refused)
  | @failed state _ reached raised =>
    cases raised with
    | cancelled => exact .inl (by simp [Error.class?])
    | @failure origin cause failed =>
      obtain ⟨root, first, read, -, steps⟩ := reached
      by_cases named : ∀ fault, cause ≠ .bare fault
      · exact .inr ⟨root, first, state, origin, cause, read, steps, failed, rfl,
          fun straight => raisedFrom_of_failure steps failed straight named⟩
      · obtain ⟨fault, same⟩ := not_forall_not.mp named
        exact .inl (by rw [same]; simp [failure, Error.class?])

/-! ### A loop -/

/-- Without artifacts, and where every source lies where it was looked for, references are those of the
own tools of their source. -/
theorem straight_of_live {request : LoadRequest} {place : Canonical.Place} {answers : Answers}
    {root : List Char} {first : Source} {load : Load}
    (read : RootRead request place answers root first)
    (sound : load.Sound (request.contextAt place) answers root first) (live : load.Live)
    (found : ∀ {location source}, load.source? location = some source → source.location = location) :
    load.Straight := by
  refine ⟨found, ?_⟩
  rintro origin tool reference ⟨location, source, at_, rfl, member⟩
  obtain ⟨-, -, ⟨own, known, stored⟩, -⟩ := mem_references_iff.mp member
  obtain ⟨fetched, given⟩ := exists_read read sound at_
  have wellFormed := (Source.wellFormed_of_read given).2
  have same : tool.id = own.id := sound.tool_id stored
  rcases sound.known stored with ⟨place, other, at', member'⟩ | ⟨_, _, _, -, leads⟩
  · obtain ⟨fetched', given'⟩ := exists_read read sound at'
    have wellFormed' := (Source.wellFormed_of_read given').2
    have shared := Source.shared_of_read given' (live _ _ at')
    rw [shared.placed tool member', String.toList_ofList]
    exact Source.location_eq_of_id wellFormed' wellFormed (live _ _ at') (live _ _ at_) member' known
      same
  · obtain ⟨line, named⟩ := (wellFormed.lined (live _ _ at_)).ids own known
    have plain := colon_not_mem_id (builtin_of_find leads)
    rw [same, named] at plain
    exact absurd (Block.colon_mem_idAt _ _) plain

/-- A text that refers to its own location, and to a file that does not exist. -/
def loop : LoadRequest :=
  ⟨.text "tools: a.gpt, missing.gpt\n\nGo on." "/work/a.gpt", "", "", LoaderSettings.initial⟩

/-- A world without anything in it. -/
abbrev emptyWorld : World := .ofFiles "/work" []

/-- The failing reference is one of the root, but another name stands before its own. -/
def namedTwice : Error :=
  .resolution "/work/a.gpt:1" "a.gpt"
    (.resolution "/work/a.gpt:1" "missing.gpt" (.source "/work/missing.gpt" (.file .notFound)))

theorem loop_named_twice :
    (run loop emptyWorld).result.map (fun _ => ()) = .error namedTwice := by
  decide +kernel

/-- Where there are no files, nothing but the text is at hand. -/
theorem loop_only {root : List Char} {first : Source} {load : Load}
    (read : RootRead loop emptyWorld.place (emptyWorld.answers loop) root first)
    (sound : load.Sound (loop.context emptyWorld) (emptyWorld.answers loop) root first)
    {location : List Char} {source : Source} (found : load.source? location = some source) :
    location = root ∧ source.location = root ∧ source.linked = false := by
  by_cases other : location = root
  · subst other
    obtain rfl := Option.some.inj (sound.rooted.symm.trans found)
    obtain ⟨fetched, ⟨-, answer⟩, given⟩ := read
    obtain rfl := Except.ok.inj answer
    have text : Document.isArtifact (Text.encode "tools: a.gpt, missing.gpt\n\nGo on.".toList) =
        .ok false := by decide +kernel
    exact ⟨rfl, (Source.wellFormed_of_read given).1, Source.linked_of_read text given⟩
  · obtain ⟨fetched, ⟨later, past, answer⟩, -⟩ := sound.read found other
    have plain : emptyWorld.Plain := ⟨rfl, fun known => by simp [World.ofFiles] at known⟩
    have like := past.like plain
    obtain ⟨file, known, -⟩ := Fetch.file_of_location (like.web.trans rfl) (like.cache.trans rfl) answer
    rw [like.files] at known
    cases known

theorem loop_provenance : ∃ root first state origin cause extra,
    RootRead loop emptyWorld.place (emptyWorld.answers loop) root first ∧
      Steps (loop.context emptyWorld) (emptyWorld.answers loop) (Progress.rooted root first) state ∧
      RaisedFrom (loop.context emptyWorld) state.load root origin cause namedTwice extra [] [] ∧
      extra ≠ [] := by
  have failed := loop_named_twice
  cases result : (run loop emptyWorld).result with
  | ok program => simp [result, Except.map] at failed
  | error error =>
    obtain rfl := Except.error.inj (result ▸ failed)
    have outcome := (run_outcome loop emptyWorld).resolve_right
      (by rw [result]; simp [timeUp, namedTwice])
    rw [result] at outcome
    obtain ⟨root, first, state, origin, cause, read, steps, -, -, provenance⟩ :=
      (failure_provenance outcome).resolve_left (by simp [namedTwice, Error.class?])
    have sound := ((Progress.sound_rooted _ _ root first).steps steps).load
    have straight : state.load.Straight :=
      straight_of_live read sound (fun _ _ found => (loop_only read sound found).2.2)
        (fun found => (loop_only read sound found).2.1.trans (loop_only read sound found).1.symm)
    obtain ⟨extra, hops, places, raised⟩ := provenance straight
    have at_root : ∀ {origin tool reference}, Refers state.load origin tool reference →
        origin = root := by
      rintro origin tool reference ⟨location, source, found, rfl, -⟩
      exact (loop_only read sound found).2.1
    obtain ⟨tool, reference, refers, at_⟩ := raised.at_
    obtain rfl := at_root refers
    cases raised.way with
    | next _ refers' _ _ fresh =>
      rw [at_root refers'] at fresh
      exact absurd List.mem_cons_self fresh
    | root =>
      refine ⟨origin, first, state, origin, cause, extra, read, steps, raised, ?_⟩
      rintro rfl
      have same : namedTwice = cause := raised.raised
      rw [← same] at at_
      exact Error.At.plain at_ rfl

end Load
end ToolGraph
