import ToolGraph.Proofs.Load.Leads
import ToolGraph.Proofs.Load.Sequential

/-!
Which locations a load fetches, and how often. A reference calls the fetcher for a location that the
load does not know yet. The location is entered at once, before anything is fetched, so that no other
reference calls for it again, however it is spelled.
-/
namespace ToolGraph
open Entries

def World.afterFetches (patience : Fetch.Patience) (world : World) (locations : List (List Char)) :
    World :=
  locations.foldl (fun world location => (Fetch.location patience location world).2) world

namespace Load

/-- A call of the fetcher, and the reference that makes it. -/
structure Call where
  origin : List Char
  tool : Tool
  reference : String
  location : List Char

/-- The calls that come of going after a reference: one, if it leads to a location that is new. -/
def Job.calls (context : LoadContext) (load : Load) (job : Job) : List Call :=
  match Destination.find context.outlook job.tool job.reference with
  | .ok (.source location _) =>
    if load.sources.has location then [] else [⟨job.origin, job.tool, job.reference, location⟩]
  | _ => []

/-- A tool at hand has a reference that its source did not map, and the reference leads to a
location: no tool of the same source and no built-in tool has its name. -/
structure Call.Needed (context : LoadContext) (load : Load) (call : Call) : Prop where
  refers : Refers load call.origin call.tool call.reference
  unmapped : call.reference ∈ call.tool.tools ∧ call.reference ∉ call.tool.toolMapping.keys
  leads : ∃ subTool, Leads context.outlook call.tool call.reference (.source call.location subTool)

def CalledFor (context : LoadContext) (load : Load) (location : List Char) : Prop :=
  ∃ call : Call, call.Needed context load ∧ call.location = location

/-- Steps of the tasks, with the calls that they have made so far and the locations that have
answered. Other steps leave the sources alone. -/
inductive Traced (context : LoadContext) (answers : Answers) (start : Progress) :
    List Call → List (List Char) → Progress → Prop where
  | start : Traced context answers start [] [] start
  | perform {calls : List Call} {answered : List (List Char)} {state : Progress} {job : Job}
      {before after : List Job} (trace : Traced context answers start calls answered state)
      (next : state.jobs = before ++ job :: after) :
      Traced context answers start (calls ++ job.calls context state.load) answered
        ({ state with jobs := before ++ after }.perform context job)
  | arrive {calls : List Call} {answered : List (List Char)} {state : Progress}
      {location : List Char} {fetched : Fetched} {source : Source}
      (trace : Traced context answers start calls answered state)
      (awaited : state.load.sources.get? location = some none)
      (fresh : location ∉ state.lost.map Prod.fst)
      (answer : answers location (.ok fetched))
      (read : Source.read context.base context.model fetched = .ok source) :
      Traced context answers start calls (answered ++ [location]) (state.register location source)
  | lose {calls : List Call} {answered : List (List Char)} {state : Progress}
      {location : List Char} {result : Except Error Fetched} {error : Error}
      (trace : Traced context answers start calls answered state)
      (awaited : state.load.sources.get? location = some none)
      (fresh : location ∉ state.lost.map Prod.fst)
      (answer : answers location result)
      (refused : result.bind (Source.read context.base context.model) = .error error) :
      Traced context answers start calls (answered ++ [location])
        { state with lost := state.lost ++ [(location, error)] }
  | rest {calls : List Call} {answered : List (List Char)} {state later : Progress}
      (trace : Traced context answers start calls answered state)
      (step : Step context answers state later) (sources : later.load.sources = state.load.sources)
      (lost : later.lost = state.lost) : Traced context answers start calls answered later

section traces
variable {context : LoadContext} {answers : Answers} {start state later : Progress}
  {calls : List Call} {answered : List (List Char)}

theorem Traced.steps (trace : Traced context answers start calls answered state) :
    Steps context answers start state := by
  induction trace with
  | start => exact .refl
  | perform _ next ih => exact ih.tail (.perform next)
  | arrive _ awaited fresh answer read ih => exact ih.tail (.arrive awaited fresh answer read)
  | lose _ awaited fresh answer refused ih => exact ih.tail (.lose awaited fresh answer refused)
  | rest _ step _ _ ih => exact ih.tail step

theorem sources_answer (source : Source) (waiter : Waiter) :
    (state.answer source waiter).load.sources = state.load.sources := by
  unfold Progress.answer linkSelected
  cases source.select waiter.subTool <;> rfl

theorem lost_answer (source : Source) (waiter : Waiter) :
    (state.answer source waiter).lost = state.lost := by
  unfold Progress.answer linkSelected
  cases source.select waiter.subTool <;> rfl

theorem Traced.step (trace : Traced context answers start calls answered state)
    (step : Step context answers state later) :
    ∃ calls answered, Traced context answers start calls answered later := by
  cases step with
  | arrive awaited fresh answer read => exact ⟨_, _, trace.arrive awaited fresh answer read⟩
  | lose awaited fresh answer refused => exact ⟨_, _, trace.lose awaited fresh answer refused⟩
  | perform next => exact ⟨_, _, trace.perform next⟩
  | openSource next => exact ⟨_, _, trace.rest (.openSource next) rfl rfl⟩
  | resume next arrived =>
    exact ⟨_, _, trace.rest (.resume next arrived) (sources_answer _ _) (lost_answer _ _)⟩
  | giveUp next lost => exact ⟨_, _, trace.rest (.giveUp next lost) rfl rfl⟩
  | cancelJob next failed => exact ⟨_, _, trace.rest (.cancelJob next failed) rfl rfl⟩
  | cancelWaiter next failed => exact ⟨_, _, trace.rest (.cancelWaiter next failed) rfl rfl⟩

theorem steps_iff_traced :
    Steps context answers start state ↔
      ∃ calls answered, Traced context answers start calls answered state := by
  constructor
  · intro steps
    induction steps with
    | refl => exact ⟨_, _, .start⟩
    | tail _ step ih =>
      obtain ⟨_, _, trace⟩ := ih
      exact trace.step step
  · rintro ⟨_, _, trace⟩
    exact trace.steps

theorem keys_follow (context : LoadContext) (load : Load) (job : Job) :
    (follow context job.origin job.tool job.reference load).1.sources.keys =
      load.sources.keys ++ (job.calls context load).map Call.location := by
  have kept : ∀ {location subTool source},
      Destination.find context.outlook job.tool job.reference = .ok (.source location subTool) →
      load.source? location = some source → job.calls context load = [] := by
    intro location subTool source leads found
    have known : load.sources.has location = true := has_iff.mpr (mem_keys_of_source? found)
    simp only [Job.calls, leads, known, if_true]
  rcases follow_cases context job.origin job.tool job.reference load with
    ⟨error, leads, moved⟩ | ⟨id, leads, moved⟩ | ⟨target, leads, moved⟩ |
    ⟨location, subTool, source, id, leads, found, -, moved⟩ |
    ⟨location, subTool, source, error, leads, found, -, moved⟩ |
    ⟨location, subTool, leads, missing, moved⟩
  all_goals rw [moved]
  case inl => simp [Job.calls, leads]
  case inr.inl => simp [Job.calls, leads, link]
  case inr.inr.inl => simp [Job.calls, leads, link, introduce]
  case inr.inr.inr.inl => simp [kept leads found, link, refer]
  case inr.inr.inr.inr.inl => simp [kept leads found, refer]
  case inr.inr.inr.inr.inr =>
    simp only [await, refer, keys_putNew, Job.calls, leads]
    by_cases known : location ∈ load.sources.keys
    · rw [if_pos known, if_pos (has_iff.mpr known), List.map_nil, List.append_nil]
    · rw [if_neg known, if_neg (fun has => known (has_iff.mp has)), List.map_singleton]

theorem lost_perform (context : LoadContext) (state : Progress) (job : Job) :
    (state.perform context job).lost = state.lost := by
  unfold Progress.perform
  split <;> rfl

theorem mem_calls {load : Load} {job : Job} {call : Call} (member : call ∈ job.calls context load) :
    call.origin = job.origin ∧ call.tool = job.tool ∧ call.reference = job.reference ∧
      ∃ subTool, Destination.find context.outlook call.tool call.reference =
        .ok (.source call.location subTool) := by
  unfold Job.calls at member
  split at member
  next location subTool leads =>
    split at member
    next => simp at member
    next =>
      obtain rfl := List.mem_singleton.mp member
      exact ⟨rfl, rfl, rfl, subTool, leads⟩
  next => simp at member

theorem needed_of_refers {load : Load} {origin location : List Char} {tool : Tool}
    {reference subTool : String} (refers : Refers load origin tool reference)
    (leads : Destination.find context.outlook tool reference = .ok (.source location subTool)) :
    Call.Needed context load ⟨origin, tool, reference, location⟩ := by
  obtain ⟨written, unmapped⟩ := List.mem_filter.mp refers.tool.2
  refine ⟨refers, ⟨written, ?_⟩, subTool, find_eq_ok_iff.mp leads⟩
  simpa [← has_eq_false_iff] using unmapped

theorem Call.Needed.grow {earlier later : Load} {call : Call}
    (needed : call.Needed context earlier) (stored : AllStored earlier)
    (grows : Grows earlier later) : call.Needed context later :=
  ⟨needed.refers.grow stored grows, needed.unmapped, needed.leads⟩

end traces

/-! ### Whatever the order of the tasks -/

/-- Every location is called for once, and answers once. -/
structure FetchedOnce (context : LoadContext) (root : List Char) (calls : List Call)
    (answered : List (List Char)) (state : Progress) : Prop where
  /-- The root comes before all calls. -/
  apart : (root :: calls.map Call.location).Nodup
  needed : ∀ call ∈ calls, call.Needed context state.load
  answeredApart : answered.Nodup
  answeredCalled : answered ⊆ calls.map Call.location

/-- The calls tell which locations a load knows, and the answers which of them are settled. -/
structure Ledger (context : LoadContext) (root : List Char) (calls : List Call)
    (answered : List (List Char)) (state : Progress) : Prop where
  known : state.load.sources.keys = root :: calls.map Call.location
  needed : ∀ call ∈ calls, call.Needed context state.load
  answeredApart : answered.Nodup
  settled : ∀ location ∈ answered, location ∈ calls.map Call.location ∧
    ((state.load.source? location).isSome ∨ location ∈ state.lost.map Prod.fst)

section ledger
variable {context : LoadContext} {answers : Answers} {root : List Char} {first : Source}
  {state later : Progress} {calls : List Call} {answered : List (List Char)}

theorem Ledger.fetchedOnce (ledger : Ledger context root calls answered state)
    (apart : state.load.sources.keys.Nodup) : FetchedOnce context root calls answered state where
  apart := ledger.known ▸ apart
  needed := ledger.needed
  answeredApart := ledger.answeredApart
  answeredCalled := fun location member => (ledger.settled location member).1

theorem Ledger.settle (ledger : Ledger context root calls answered state) {location : List Char}
    (other : location ≠ root) (awaited : state.load.sources.get? location = some none)
    (fresh : location ∉ state.lost.map Prod.fst) (grows : Grows state.load later.load)
    (lost : state.lost.map Prod.fst ⊆ later.lost.map Prod.fst)
    (known : later.load.sources.keys = state.load.sources.keys)
    (settles : (later.load.source? location).isSome ∨ location ∈ later.lost.map Prod.fst)
    (stored : AllStored state.load) :
    Ledger context root calls (answered ++ [location]) later := by
  have kept : ∀ place, (state.load.source? place).isSome ∨ place ∈ state.lost.map Prod.fst →
      (later.load.source? place).isSome ∨ place ∈ later.lost.map Prod.fst := by
    intro place settled
    rcases settled with found | gone
    · obtain ⟨source, found⟩ := Option.isSome_iff_exists.mp found
      exact .inl (Option.isSome_of_eq_some (grows.sources found))
    · exact .inr (lost gone)
  have called : location ∈ calls.map Call.location := by
    have member := mem_keys_of_get? awaited
    rw [ledger.known] at member
    exact (List.mem_cons.mp member).resolve_left other
  refine ⟨known.trans ledger.known, ?_, ?_, ?_⟩
  · intro call member
    exact (ledger.needed call member).grow stored grows
  · apply List.nodup_append.mpr ⟨ledger.answeredApart, List.nodup_singleton location, ?_⟩
    intro place member next same
    obtain rfl := List.mem_singleton.mp same
    rintro rfl
    rcases (ledger.settled place member).2 with found | gone
    · simp [source?, awaited] at found
    · exact fresh gone
  · intro place member
    rcases List.mem_append.mp member with old | new
    · exact (ledger.settled place old).imp id (kept place)
    · obtain rfl := List.mem_singleton.mp new
      exact ⟨called, settles⟩

theorem Ledger.keep (ledger : Ledger context root calls answered state) {more : List Call}
    (known : later.load.sources.keys = state.load.sources.keys ++ more.map Call.location)
    (lost : later.lost = state.lost) (grows : Grows state.load later.load)
    (stored : AllStored state.load) (needed : ∀ call ∈ more, call.Needed context later.load) :
    Ledger context root (calls ++ more) answered later := by
  refine ⟨?_, ?_, ledger.answeredApart, ?_⟩
  · rw [known, ledger.known, List.map_append, List.cons_append]
  · intro call member
    rcases List.mem_append.mp member with old | new
    · exact (ledger.needed call old).grow stored grows
    · exact needed call new
  · intro location member
    obtain ⟨called, settled⟩ := ledger.settled location member
    refine ⟨by simp [called], ?_⟩
    rcases settled with found | gone
    · obtain ⟨source, found⟩ := Option.isSome_iff_exists.mp found
      exact .inl (Option.isSome_of_eq_some (grows.sources found))
    · exact .inr (lost ▸ gone)

theorem Traced.ledger
    (trace : Traced context answers (Progress.rooted root first) calls answered state) :
    Ledger context root calls answered state := by
  induction trace with
  | start => exact ⟨rfl, by simp, List.nodup_nil, by simp⟩
  | @perform calls answered state job before after trace next ih =>
    have sound := (Progress.sound_rooted context answers root first).steps trace.steps
    have step : Step context answers state _ := .perform next
    have stored : AllStored state.load := sound.load.stored
    have lost := lost_perform context { state with jobs := before ++ after } job
    refine ih.keep ?_ lost step.grows stored ?_
    · rw [load_perform, keys_follow]
    · intro call member
      obtain ⟨origin, tool, reference, subTool, leads⟩ := mem_calls member
      have refers := (sound.jobs (next ▸ List.mem_append_cons_self)).grow stored step.grows
      rw [← origin, ← tool, ← reference] at refers
      exact needed_of_refers refers leads
  | @arrive calls answered state location fetched source trace awaited fresh answer read ih =>
    have sound := (Progress.sound_rooted context answers root first).steps trace.steps
    have step : Step context answers state _ := .arrive awaited fresh answer read
    have other := sound.load.ne_root awaited
    refine ih.settle other awaited fresh step.grows (List.Subset.refl _) ?_ ?_ sound.load.stored
    · have known := keys_put state.load.sources location (some source)
      exact known.trans (if_pos (mem_keys_of_get? awaited))
    · have found := source?_deliverSource state.load location location source
      exact .inl (Option.isSome_of_eq_some (found.trans (if_pos rfl)))
  | @lose calls answered state location result error trace awaited fresh answer refused ih =>
    have sound := (Progress.sound_rooted context answers root first).steps trace.steps
    have step : Step context answers state _ := .lose awaited fresh answer refused
    have other := sound.load.ne_root awaited
    refine ih.settle other awaited fresh step.grows ?_ rfl (.inr ?_) sound.load.stored
    · simp
    · simp
  | @rest calls answered state later trace step sources lost ih =>
    have sound := (Progress.sound_rooted context answers root first).steps trace.steps
    rw [← List.append_nil calls]
    exact ih.keep (by simp [sources]) lost step.grows sound.load.stored (by simp)

theorem Sound.called {load : Load} (sound : load.Sound context answers root first)
    {location : List Char} (known : location ∈ load.sources.keys) (other : location ≠ root) :
    CalledFor context load location := by
  cases sound.reached known with
  | root => exact absurd rfl other
  | @next place _ source tool reference subTool reached found refers leads =>
    have refers : Refers load source.location tool reference := ⟨place, source, found, rfl, refers⟩
    exact ⟨_, needed_of_refers refers leads, rfl⟩

end ledger

/-! ### The loader -/

section loader
variable {request : LoadRequest} {context : LoadContext} {answers : Answers}

theorem source?_of_deliver {load later : Load} {location : List Char}
    {result : Except Error Fetched} (idle : Idle load)
    (delivered : load.deliver context location result = .ok later) :
    (later.source? location).isSome := by
  unfold deliver at delivered
  split at delivered
  next source read =>
    have taken := @accept_steps context (fun _ _ => True) load location source idle
    rw [delivered] at taken
    have found : (load.deliverSource location source).source? location = some source := by
      rw [source?_deliverSource, if_pos rfl]
    exact Option.isSome_of_eq_some (Steps.grows taken.2 |>.sources found)
  next => simp at delivered

def drainLocations (request : LoadRequest) (context : LoadContext) :
    (bound : Nat) → Load → World → List (List Char)
  | 0, _, _ => []
  | bound + 1, load, world =>
    match load.pending with
    | [] => []
    | location :: _ =>
      let (result, world) := Fetch.location request.patience location world
      match load.deliver context location result with
      | .error _ => [location]
      | .ok load => location :: drainLocations request context bound load world

theorem drain_world (bound peak : Nat) (load : Load) (world : World) :
    (drain request context bound peak load world).2.2 =
      world.afterFetches request.patience (drainLocations request context bound load world) := by
  induction bound generalizing peak load world with
  | zero => rfl
  | succ bound ih =>
    simp only [drain, drainLocations]
    cases load.pending with
    | nil => rfl
    | cons location rest =>
      simp only
      cases load.deliver context location (Fetch.location request.patience location world).1 with
      | error error => rfl
      | ok next => exact ih _ _ _

theorem drain_fetches {origin : World} {root : List Char} {first : Source} {bound : Nat}
    {load : Load} {world : World}
    (sound : load.resting.Sound context (origin.answers request) root first) (idle : Idle load)
    (past : World.Later request.patience origin world) :
    let locations := drainLocations request context bound load world
    locations.Nodup ∧ ∀ location ∈ locations, load.source? location = none ∧
      ∃ later, Steps context (origin.answers request) load.resting later ∧
        CalledFor context later.load location := by
  induction bound generalizing load world with
  | zero => exact ⟨List.nodup_nil, by simp [drainLocations]⟩
  | succ bound ih =>
    simp only [drainLocations]
    cases pending : load.pending with
    | nil => exact ⟨List.nodup_nil, by simp⟩
    | cons location rest =>
      have member : location ∈ load.pending := pending ▸ List.mem_cons_self
      have awaited : load.sources.get? location = some none :=
        (mem_pending_iff sound.load.apart).mp member
      have missing : load.source? location = none := by simp [source?, awaited]
      have called : CalledFor context load location :=
        sound.load.called (mem_keys_of_get? awaited) (sound.load.ne_root awaited)
      have moved := @deliver_steps context (origin.answers request) load location _
        sound.load.apart idle member ⟨world, past, rfl⟩
      simp only
      cases delivered : load.deliver context location
          (Fetch.location request.patience location world).1 with
      | error error =>
        refine ⟨List.nodup_singleton location, ?_⟩
        intro place member
        obtain rfl := List.mem_singleton.mp member
        exact ⟨missing, load.resting, .refl, called⟩
      | ok next =>
        rw [delivered] at moved
        obtain ⟨idle', steps⟩ := moved
        have arrived := source?_of_deliver idle delivered
        obtain ⟨apart, asked⟩ := ih (sound.steps steps) idle' (past.fetch location)
        refine ⟨List.nodup_cons.mpr ⟨?_, apart⟩, ?_⟩
        · intro again
          simp [(asked location again).1] at arrived
        · intro place member
          rcases List.mem_cons.mp member with rfl | later
          · exact ⟨missing, load.resting, .refl, called⟩
          · obtain ⟨unread, state, rest, called⟩ := asked place later
            refine ⟨?_, state, steps.trans rest, called⟩
            by_contra found
            obtain ⟨source, found⟩ := Option.ne_none_iff_exists'.mp found
            have kept : next.source? place = some source := (Steps.grows steps).sources found
            simp [unread] at kept

/-- A root that is taken in has run some of the tasks, and nothing is open. -/
theorem begin_steps {location : List Char} {fetched : Fetched} {load : Load} {entry : String}
    (begun : begin request context location fetched = .ok (load, entry)) :
    ∃ source, Source.read context.base context.model fetched = .ok source ∧
      source.select request.subToolName = .ok entry ∧ Idle load ∧
      Steps context answers (Progress.rooted location source) load.resting := by
  unfold begin at begun
  split at begun
  next => simp at begun
  next source read =>
    split at begun
    next => simp at begun
    next entry selected =>
      have taken := @accept_steps context answers start location source
        ⟨by simp [start], by simp [start]⟩
      cases accepted : start.accept context location source with
      | error error => simp [accepted, Except.map] at begun
      | ok rested =>
        simp only [accepted, Except.map, Except.ok.injEq, Prod.mk.injEq] at begun
        obtain ⟨rfl, rfl⟩ := begun
        rw [accepted] at taken
        exact ⟨source, read, selected, taken⟩

theorem begin_fetches {world later : World} {location : List Char} {fetched : Fetched} {load : Load}
    {entry : String} (bound : Nat)
    (found : RootFound request world.place (world.answers request) location (.ok fetched))
    (past : World.Later request.patience world later)
    (begun : begin request (request.context world) location fetched = .ok (load, entry)) :
    let locations := drainLocations request (request.context world) bound load later
    locations.Nodup ∧ location ∉ locations ∧ ∀ place ∈ locations, ∃ state,
      Reaches request world.place (world.answers request) state ∧
        CalledFor (request.context world) state.load place := by
  obtain ⟨source, read, selected, idle, begins⟩ :=
    @begin_steps request (request.context world) (world.answers request) _ _ _ _ begun
  have sound := (Progress.sound_rooted _ _ location source).steps begins
  obtain ⟨apart, asked⟩ :=
    @drain_fetches request (request.context world) world location source bound load later sound idle
      past
  refine ⟨apart, ?_, ?_⟩
  · intro member
    have known : load.source? location = some source := sound.load.rooted
    simp [(asked location member).1] at known
  · intro place member
    obtain ⟨-, state, steps, called⟩ := asked place member
    exact ⟨state, ⟨location, source, ⟨fetched, found, read⟩, ⟨entry, selected⟩, begins.trans steps⟩,
      called⟩

theorem run_of_root {request : LoadRequest} {world later : World} {location : List Char}
    {fetched : Fetched} (early : request.isOver = false)
    (found : request.fetchRoot world = (.ok (location, fetched), later)) :
    match begin request (request.context world) location fetched with
    | .error error => (run request world).result = .error error ∧ (run request world).world = later
    | .ok (load, entry) =>
      let bound := sourceBound world
      let peak := if Location.isUrl location then 1 else 0
      (run request world).result =
          (drain request (request.context world) bound peak load later).1.map
            (fun load => load.program request.name entry) ∧
        (run request world).world = later.afterFetches request.patience
          (drainLocations request (request.context world) bound load later) := by
  simp only [run, complete, early, Bool.false_eq_true, if_false, found]
  cases begin request (request.context world) location fetched with
  | error error => exact ⟨rfl, rfl⟩
  | ok done =>
    obtain ⟨load, entry⟩ := done
    simp only [← drain_world _ (if Location.isUrl location then 1 else 0), and_true]
    cases (drain request (request.context world) (sourceBound world) _ load
      later).1 <;> rfl

def rootFetches (request : LoadRequest) (location : List Char) : List (List Char) :=
  match request.root with
  | .text .. => []
  | .reference _ => [location]

theorem fetchRoot_fetches {world : World} {location : List Char}
    (rooted : request.rootLocation (request.context world) = .ok location) :
    (request.fetchRoot world).2 =
      world.afterFetches request.patience (rootFetches request location) := by
  simp only [LoadRequest.fetchRoot, rooted, rootFetches]
  cases request.root <;> rfl

/-- What the loader fetches for a request in a world, one location after the other: the root, unless
it is a text, and what references need. -/
structure Fetches (request : LoadRequest) (world : World) (locations : List (List Char)) : Prop where
  fetched : (run request world).world = world.afterFetches request.patience locations
  apart : locations.Nodup
  text : ∀ content location, request.root = .text content location → location.toList ∉ locations
  needed : ∀ location ∈ locations, request.rootLocation (request.context world) = .ok location ∨
    ∃ state, Reaches request world.place (world.answers request) state ∧
      CalledFor (request.context world) state.load location

theorem mem_rootFetches {root location : List Char} (member : location ∈ rootFetches request root) :
    location = root ∧ ∀ content place, request.root ≠ .text content place := by
  unfold rootFetches at member
  split at member
  next => simp at member
  next text rooted => exact ⟨List.mem_singleton.mp member, by simp [rooted]⟩

theorem nodup_rootFetches (root : List Char) : (rootFetches request root).Nodup := by
  unfold rootFetches
  split <;> simp

theorem fetches_of_root {world : World} {root : List Char} {rest : List (List Char)}
    (rooted : request.rootLocation (request.context world) = .ok root)
    (fetched : (run request world).world = World.afterFetches request.patience
      (world.afterFetches request.patience (rootFetches request root)) rest)
    (apart : rest.Nodup) (other : root ∉ rest)
    (needed : ∀ location ∈ rest, ∃ state,
      Reaches request world.place (world.answers request) state ∧
        CalledFor (request.context world) state.load location) :
    Fetches request world (rootFetches request root ++ rest) where
  fetched := by
    rw [fetched]
    exact (List.foldl_append).symm
  apart := by
    apply List.nodup_append.mpr ⟨nodup_rootFetches root, apart, ?_⟩
    intro location member place again
    rw [(mem_rootFetches member).1]
    exact ne_of_mem_of_not_mem again other |>.symm
  text := by
    intro content location text member
    rcases List.mem_append.mp member with first | later
    · exact (mem_rootFetches first).2 content location text
    · simp only [LoadRequest.rootLocation, text, Except.ok.injEq] at rooted
      exact other (rooted ▸ later)
  needed := by
    intro location member
    rcases List.mem_append.mp member with first | later
    · exact .inl ((mem_rootFetches first).1 ▸ rooted)
    · exact .inr (needed location later)

theorem run_fetches (request : LoadRequest) (world : World) :
    ∃ locations, Fetches request world locations := by
  by_cases late : request.isOver
  · refine ⟨[], ?_, List.nodup_nil, by simp, by simp⟩
    simp only [run, complete, if_pos late]
    rfl
  · cases rooted : request.rootLocation (request.context world) with
    | error error =>
      refine ⟨[], ?_, List.nodup_nil, by simp, by simp⟩
      simp only [run, complete, if_neg late, LoadRequest.fetchRoot, rooted]
      rfl
    | ok root =>
      have after := fetchRoot_fetches rooted
      -- A load that ends before its references has fetched the root alone.
      have ends : (run request world).world = (request.fetchRoot world).2 →
          ∃ locations, Fetches request world locations := by
        intro same
        refine ⟨_, @fetches_of_root request world root [] rooted ?_ List.nodup_nil (by simp) (by simp)⟩
        rw [same, after]
        rfl
      cases fetches : request.fetchRoot world with
      | mk found later =>
        rw [fetches] at after ends
        cases found with
        | error error =>
          apply ends
          simp only [run, complete, if_neg late, fetches]
        | ok found =>
          obtain ⟨location, fetched⟩ := found
          obtain ⟨⟨located, answer⟩, past⟩ := rootFound_of_fetchRoot fetches
          obtain rfl : location = root := Except.ok.inj (located.symm.trans rooted)
          have runs := run_of_root (Bool.eq_false_iff.mpr late) fetches
          cases begun : begin request (request.context world) location fetched with
          | error error =>
            rw [begun] at runs
            exact ends runs.2
          | ok done =>
            obtain ⟨load, entry⟩ := done
            rw [begun] at runs
            obtain ⟨apart, other, needed⟩ :=
              begin_fetches (sourceBound world) ⟨located, answer⟩ past begun
            exact ⟨_, fetches_of_root rooted (after ▸ runs.2) apart other needed⟩

/-- At most one fetch for each location: in whatever order the tasks of a load go on, every location
is called for once and answers once, the root apart, and only for references that need it. The loader
fetches the root of a reference, but no text, and every other location at most once. -/
theorem fetched_once (request : LoadRequest) :
    (∀ {place : Canonical.Place} {answers : Answers} {root : List Char} {first : Source}
        {state : Progress}, RootRead request place answers root first →
      Steps (request.contextAt place) answers (Progress.rooted root first) state →
      (∃ calls answered, Traced (request.contextAt place) answers (Progress.rooted root first)
          calls answered state) ∧
        ∀ {calls answered}, Traced (request.contextAt place) answers (Progress.rooted root first)
          calls answered state →
          FetchedOnce (request.contextAt place) root calls answered state) ∧
      ∀ world, ∃ locations, Fetches request world locations := by
  refine ⟨?_, run_fetches request⟩
  intro place answers root first state read steps
  refine ⟨steps_iff_traced.mp steps, ?_⟩
  intro calls answered trace
  have sound := (Progress.sound_rooted _ _ root first).steps steps
  exact trace.ledger.fetchedOnce sound.load.apart

/-- Files that refer to each other on several ways and in several spellings, one of them to itself. -/
def diamond : World :=
  .ofFiles "/work"
    [("/work/a.gpt", "tools: b.gpt, ./b.gpt, c.gpt, a.gpt\n\nGo on."),
      ("/work/b.gpt", "tools: c.gpt, /work/a.gpt\n\nGo on."), ("/work/c.gpt", "Stop.")]

set_option maxRecDepth 10000 in
theorem diamond_fetched_once :
    (run (.of "a.gpt") diamond).world.reads =
        ["/work/a.gpt", "/work/b.gpt", "/work/c.gpt"].map String.toList ∧
      (∃ locations, Fetches (.of "a.gpt") diamond locations) ∧
      ∃ context answers root first calls answered state,
        Traced context answers (Progress.rooted root first) calls answered state ∧
          FetchedOnce context root calls answered state ∧
          state.load.sources.keys =
            ["/work/a.gpt", "/work/b.gpt", "/work/c.gpt"].map String.toList := by
  have known : (complete (.of "a.gpt") diamond).1.toOption.map (·.1.sources.keys) =
        some (["/work/a.gpt", "/work/b.gpt", "/work/c.gpt"].map String.toList) ∧
      (run (.of "a.gpt") diamond).world.reads =
        ["/work/a.gpt", "/work/b.gpt", "/work/c.gpt"].map String.toList := by
    decide +kernel
  refine ⟨known.2, (fetched_once (.of "a.gpt")).2 diamond, ?_⟩
  cases completed : (complete (.of "a.gpt") diamond).1 with
  | error error => simp [completed, Except.toOption] at known
  | ok done =>
    obtain ⟨load, entry⟩ := done
    obtain ⟨-, root, first, state, read, -, steps, -, rfl⟩ := completes_of_complete completed
    obtain ⟨⟨calls, answered, trace⟩, once⟩ := (fetched_once (.of "a.gpt")).1 read steps
    rw [completed] at known
    exact ⟨_, _, root, first, calls, answered, state, trace, once trace, Option.some.inj known.1⟩

end loader
end Load
end ToolGraph
