import Mathlib.Order.WellFounded
import ToolGraph.Proofs.Found
import ToolGraph.Proofs.Load.Turns

/-!
Loads come to an end. Only finitely many locations of a world have content, and each is read once, so
that no order of the tasks goes on for ever. A reference that waits does so for the answer of one
location, which waits for no other task: unless all is done or something has failed, some task can go on.
-/
namespace ToolGraph.Load
open Entries

def readLocations (load : Load) : List (List Char) := keys (load.sources.filter (·.2.isSome))

/-- The locations that nothing is known of but that they are needed. -/
def Progress.unanswered (state : Progress) : List (List Char) :=
  state.load.pending.filter (fun location => !(state.lost.map Prod.fst).contains location)

/-- What is left to be done, the first number before all others: sources that may still be found, sources
to be opened, jobs, and what waits. -/
def Progress.rank (bound : Nat) (state : Progress) : Nat × Nat × Nat × Nat :=
  (bound - state.load.readLocations.length, state.opened.length, state.jobs.length,
    state.load.waiters.length + state.unanswered.length)

/-- A rank is lower in the first number that differs. -/
def Lower : Nat × Nat × Nat × Nat → Nat × Nat × Nat × Nat → Prop :=
  Prod.Lex (· < ·) (Prod.Lex (· < ·) (Prod.Lex (· < ·) (· < ·)))

theorem lower_wf : WellFounded Lower :=
  (Prod.lex Nat.lt_wfRel (Prod.lex Nat.lt_wfRel (Prod.lex Nat.lt_wfRel Nat.lt_wfRel))).wf

/-! ### Sources that are read -/

theorem mem_readLocations_iff {load : Load} (apart : load.sources.keys.Nodup) {location : List Char} :
    location ∈ load.readLocations ↔ (load.source? location).isSome := by
  simp only [readLocations, keys, List.mem_map, List.mem_filter]
  constructor
  · rintro ⟨⟨place, value⟩, ⟨member, some⟩, rfl⟩
    obtain ⟨source, rfl⟩ := Option.isSome_iff_exists.mp some
    exact Option.isSome_of_eq_some (source?_eq_some_iff.mpr (get?_of_mem apart member))
  · intro some
    obtain ⟨source, found⟩ := Option.isSome_iff_exists.mp some
    exact ⟨_, ⟨mem_of_get? (source?_eq_some_iff.mp found), rfl⟩, rfl⟩

theorem nodup_readLocations {load : Load} (apart : load.sources.keys.Nodup) :
    load.readLocations.Nodup := by
  exact apart.sublist (List.Sublist.map Prod.fst List.filter_sublist)

theorem length_readLocations_le {earlier later : Load} (apart : earlier.sources.keys.Nodup)
    (apart' : later.sources.keys.Nodup) (grows : Grows earlier later) :
    earlier.readLocations.length ≤ later.readLocations.length := by
  apply (List.subperm_of_subset (nodup_readLocations apart) ?_).length_le
  intro location member
  obtain ⟨source, found⟩ := Option.isSome_iff_exists.mp ((mem_readLocations_iff apart).mp member)
  exact (mem_readLocations_iff apart').mpr (Option.isSome_of_eq_some (grows.sources found))

theorem length_readLocations_lt {earlier later : Load} (apart : earlier.sources.keys.Nodup)
    (apart' : later.sources.keys.Nodup) (grows : Grows earlier later) {location : List Char}
    (missing : earlier.source? location = none) (found : (later.source? location).isSome) :
    earlier.readLocations.length < later.readLocations.length := by
  have fresh : location ∉ earlier.readLocations := by
    rw [mem_readLocations_iff apart, missing]
    simp
  have more : (location :: earlier.readLocations).Nodup :=
    List.nodup_cons.mpr ⟨fresh, nodup_readLocations apart⟩
  refine (List.subperm_of_subset more (List.cons_subset.mpr ⟨?_, ?_⟩)).length_le
  · exact (mem_readLocations_iff apart').mpr found
  · intro place member
    obtain ⟨source, known⟩ := Option.isSome_iff_exists.mp ((mem_readLocations_iff apart).mp member)
    exact (mem_readLocations_iff apart').mpr (Option.isSome_of_eq_some (grows.sources known))

theorem canonical_of_locate {place : Canonical.Place} {home reference base location : List Char}
    (located : Outlook.locate ⟨Canonical.location place, home⟩ reference base = .ok location) :
    ∃ written, Canonical.location place written = .ok location := by
  unfold Outlook.locate at located
  split at located
  next written _ => exact ⟨written, located⟩
  next => simp at located

theorem canonical_of_find {place : Canonical.Place} {home : List Char} {tool : Tool}
    {reference subTool : String} {location : List Char}
    (leads : Destination.find ⟨Canonical.location place, home⟩ tool reference =
      .ok (.source location subTool)) :
    ∃ written, Canonical.location place written = .ok location := by
  cases find_eq_ok_iff.mp leads with
  | source _ _ _ located => exact canonical_of_locate located

theorem Sound.exists_canonical {request : LoadRequest} {place : Canonical.Place} {answers : Answers}
    {root location : List Char} {first : Source} {load : Load}
    (sound : load.Sound (request.contextAt place) answers root first)
    (known : location ∈ load.sources.keys) (other : location ≠ root) :
    ∃ written, Canonical.location place written = .ok location := by
  cases sound.reached known with
  | root => exact absurd rfl other
  | next _ _ _ leads => exact canonical_of_find leads

/-- The cache has the content of URLs that can be sent, and no other URL that the load comes across has
the digest of one. -/
structure Unmistaken (request : LoadRequest) (world : World) : Prop where
  stored : world.Stores fun key _ => IsSentKey key
  apart : ∀ {cache}, world.cache = some cache → ∀ {state},
    Reaches request world.place (world.answers request) state →
    ∀ location ∈ state.load.sources.keys, IsSentKey (Digest.ofText (String.ofList location)) →
      ∃ sent, Url.sent location = .ok sent

section world
variable {request : LoadRequest} {world : World} {state : Progress}

theorem unmistaken_of_uncached (request : LoadRequest) (empty : world.cache = none) :
    Unmistaken request world :=
  ⟨by simp [World.Stores, empty], by simp [empty]⟩

theorem Unmistaken.honest (unmistaken : Unmistaken request world)
    (reached : Reaches request world.place (world.answers request) state) {later : World}
    (past : World.Later request.patience world later) :
    ∀ location ∈ state.load.sources.keys, later.Honest location := by
  intro location known content cached
  obtain ⟨cache, full, found⟩ := Option.bind_eq_some_iff.mp cached
  have sent := past.stores unmistaken.stored _ full _ (Cache.mem_of_get? found)
  cases origin : world.cache with
  | none => simp [past.uncached origin] at full
  | some before => exact unmistaken.apart origin reached location known sent

theorem Reaches.few (rooted : Path.isAbsolute world.cwd = true)
    (unmistaken : Unmistaken request world)
    (reached : Reaches request world.place (world.answers request) state) :
    state.load.readLocations.length ≤ sourceBound world := by
  obtain ⟨root, first, -, -, steps⟩ := id reached
  have sound := ((Progress.sound_rooted _ _ root first).steps steps).load
  have others : (state.load.readLocations.erase root).Nodup :=
    (nodup_readLocations sound.apart).erase root
  have short : ∀ location ∈ state.load.readLocations.erase root,
      location.length ≤ longestLocation world := by
    intro location member
    obtain ⟨other, member⟩ := (List.Nodup.mem_erase_iff (nodup_readLocations sound.apart)).mp member
    obtain ⟨source, found⟩ :=
      Option.isSome_iff_exists.mp ((mem_readLocations_iff sound.apart).mp member)
    obtain ⟨fetched, ⟨later, past, answer⟩, -⟩ := sound.read found other
    have known := mem_keys_of_source? found
    obtain ⟨written, canonical⟩ := sound.exists_canonical known other
    have honest : later.Honest location := unmistaken.honest reached past location known
    exact length_of_location rooted canonical past honest answer
  have few := length_lt_sourceBound others short
  rw [List.length_erase] at few
  split at few <;> omega

end world

/-! ### No order goes on for ever -/

section steps
variable {context : LoadContext} {answers : Answers} {root : List Char} {first : Source}
  {state later : Progress}

theorem waiters_answer (source : Source) (waiter : Waiter) :
    (state.answer source waiter).load.waiters = state.load.waiters ∧
      (state.answer source waiter).opened = state.opened ∧
      (state.answer source waiter).jobs = state.jobs := by
  unfold Progress.answer linkSelected
  cases source.select waiter.subTool <;> exact ⟨rfl, rfl, rfl⟩

theorem opened_perform (job : Job) :
    (state.perform context job).opened = state.opened ∧
      (state.perform context job).jobs = state.jobs := by
  unfold Progress.perform
  split <;> exact ⟨rfl, rfl⟩

theorem length_split {α : Type} {items before after : List α} {item : α}
    (split : items = before ++ item :: after) : (before ++ after).length < items.length := by
  rw [split]
  simp

theorem unanswered_congr (sources : later.load.sources = state.load.sources)
    (lost : later.lost = state.lost) : later.unanswered = state.unanswered := by
  simp only [Progress.unanswered, pending, sources, lost]

theorem length_unanswered_lt {location : List Char} {error : Error}
    (apart : state.load.sources.keys.Nodup)
    (awaited : state.load.sources.get? location = some none)
    (fresh : location ∉ state.lost.map Prod.fst) :
    (Progress.unanswered { state with lost := state.lost ++ [(location, error)] }).length <
      state.unanswered.length := by
  have less : Progress.unanswered { state with lost := state.lost ++ [(location, error)] } =
      state.unanswered.filter (· != location) := by
    simp only [Progress.unanswered, List.filter_filter]
    apply List.filter_congr
    intro place member
    rw [Bool.eq_iff_iff]
    simp
    tauto
  have open_ : location ∈ state.unanswered := by
    apply List.mem_filter.mpr
    exact ⟨(mem_pending_iff apart).mpr awaited, by simpa using fresh⟩
  rw [less]
  exact List.length_filter_lt_length_iff_exists.mpr ⟨location, open_, by simp⟩

theorem Step.lower {bound : Nat} (sound : state.Sound context answers root first)
    (few : later.load.readLocations.length ≤ bound) (step : Step context answers state later) :
    Lower (later.rank bound) (state.rank bound) := by
  have next : later.Sound context answers root first := sound.step step
  have most : bound - later.load.readLocations.length ≤ bound - state.load.readLocations.length := by
    have grown := length_readLocations_le sound.load.apart next.load.apart step.grows
    omega
  cases step with
  | @arrive location fetched source awaited fresh answer read =>
    apply Prod.Lex.left
    have missing : state.load.source? location = none := by simp [source?, awaited]
    have found : ((state.register location source).load.source? location).isSome := by
      have known := source?_deliverSource state.load location location source
      exact Option.isSome_of_eq_some (known.trans (if_pos rfl))
    have more := length_readLocations_lt sound.load.apart next.load.apart
      (grows_deliverSource source missing) missing found
    omega
  | @lose location result error awaited fresh answer refused =>
    refine Prod.Lex.right' _ most (Prod.Lex.right _ (Prod.Lex.right _ ?_))
    exact Nat.add_lt_add_left (length_unanswered_lt sound.load.apart awaited fresh) _
  | openSource split =>
    exact Prod.Lex.right' _ most (Prod.Lex.left _ _ (length_split split))
  | @perform job before after split =>
    obtain ⟨opened, jobs⟩ :=
      @opened_perform context { state with jobs := before ++ after } job
    refine Prod.Lex.right' _ most ?_
    simp only [opened, jobs]
    exact Prod.Lex.right _ (Prod.Lex.left _ _ (length_split split))
  | @resume waiter source before after split arrived =>
    obtain ⟨waiters, opened, jobs⟩ :=
      @waiters_answer (state.setWaiters (before ++ after)) source waiter
    have unanswered : ((state.setWaiters (before ++ after)).answer source waiter).unanswered =
        state.unanswered := unanswered_congr (sources_answer _ _) (lost_answer _ _)
    refine Prod.Lex.right' _ most ?_
    simp only [opened, jobs, waiters, unanswered]
    refine Prod.Lex.right _ (Prod.Lex.right _ ?_)
    exact Nat.add_lt_add_right (length_split split) _
  | giveUp split lost =>
    refine Prod.Lex.right' _ most (Prod.Lex.right _ (Prod.Lex.right _ ?_))
    exact Nat.add_lt_add_right (length_split split) _
  | cancelJob split failed =>
    exact Prod.Lex.right' _ most (Prod.Lex.right _ (Prod.Lex.left _ _ (length_split split)))
  | cancelWaiter split failed =>
    refine Prod.Lex.right' _ most (Prod.Lex.right _ (Prod.Lex.right _ ?_))
    exact Nat.add_lt_add_right (length_split split) _

end steps

theorem Reaches.tail {request : LoadRequest} {place : Canonical.Place} {answers : Answers}
    {state later : Progress} (reached : Reaches request place answers state)
    (step : Step (request.contextAt place) answers state later) :
    Reaches request place answers later := by
  obtain ⟨root, first, read, selected, steps⟩ := reached
  exact ⟨root, first, read, selected, steps.tail step⟩

theorem not_endless {request : LoadRequest} {world : World}
    (rooted : Path.isAbsolute world.cwd = true) (unmistaken : Unmistaken request world)
    (states : Nat → Progress)
    (reached : Reaches request world.place (world.answers request) (states 0)) :
    ∃ n, ¬ Step (request.context world) (world.answers request) (states n) (states (n + 1)) := by
  by_contra endless
  have step : ∀ n, Step (request.context world) (world.answers request) (states n)
      (states (n + 1)) := not_exists_not.mp endless
  have reached : ∀ n, Reaches request world.place (world.answers request) (states n) := by
    intro n
    induction n with
    | zero => exact reached
    | succ n ih => exact ih.tail (step n)
  have lower : ∀ n, Lower ((states (n + 1)).rank (sourceBound world))
      ((states n).rank (sourceBound world)) := by
    intro n
    obtain ⟨root, first, -, -, steps⟩ := reached n
    have sound := (Progress.sound_rooted _ _ root first).steps steps
    exact (step n).lower sound ((reached (n + 1)).few rooted unmistaken)
  have founded : IsWellFounded _ Lower := ⟨lower_wf⟩
  obtain ⟨n, stuck⟩ := @WellFounded.not_rel_apply_succ _ Lower founded
    (fun n => (states n).rank (sourceBound world))
  exact stuck (lower n)

section waits
variable {context : LoadContext} {answers : Answers} {root : List Char} {first : Source}
  {state later : Progress}

/-! ### Something can always be done -/

theorem waiters_perform (job : Job) {waiter : Waiter}
    (member : waiter ∈ (state.perform context job).load.waiters) :
    waiter ∈ state.load.waiters ∨
      waiter.location ∈ (state.perform context job).load.sources.keys := by
  rw [load_perform] at member ⊢
  rcases follow_cases context job.origin job.tool job.reference state.load with
    ⟨error, -, moved⟩ | ⟨id, -, moved⟩ | ⟨target, -, moved⟩ |
    ⟨location, subTool, source, id, -, -, -, moved⟩ |
    ⟨location, subTool, source, error, -, -, -, moved⟩ |
    ⟨location, subTool, -, -, moved⟩
  all_goals simp only [moved] at member ⊢
  case inr.inr.inr.inr.inr =>
    rcases List.mem_append.mp member with old | new
    · exact .inl old
    · obtain rfl := List.mem_singleton.mp new
      exact .inr (mem_keys_putNew.mpr (.inl rfl))
  all_goals exact .inl member

theorem Step.waiters (step : Step context answers state later) {waiter : Waiter}
    (member : waiter ∈ later.load.waiters) :
    waiter ∈ state.load.waiters ∨ waiter.location ∈ later.load.sources.keys := by
  cases step with
  | arrive | lose | openSource | cancelJob => exact .inl member
  | @perform job before after =>
    exact @waiters_perform context { state with jobs := before ++ after } job waiter member
  | @resume other source before after split =>
    rw [(waiters_answer source other).1] at member
    exact .inl (Progress.mem_of_split split member)
  | giveUp split => exact .inl (Progress.mem_of_split split member)
  | cancelWaiter split => exact .inl (Progress.mem_of_split split member)

theorem known_waiter (steps : Steps context answers (Progress.rooted root first) state)
    {waiter : Waiter} (member : waiter ∈ state.load.waiters) :
    waiter.location ∈ state.load.sources.keys := by
  induction steps with
  | refl => simp [Progress.rooted, Progress.register, start, addTools] at member
  | tail _ step ih =>
    rcases step.waiters member with old | known
    · exact step.grows.locations (ih old)
    · exact known

/-- The task of a reference that waits goes on, and no other task has to do with it. -/
structure Leaves (context : LoadContext) (state : Progress) (waiting : List Waiter)
    (later : Progress) : Prop where
  step : Step context (fun _ _ => False) state later
  waiters : later.load.waiters = waiting
  opened : later.opened = state.opened
  jobs : later.jobs = state.jobs

def Progress.Settled (state : Progress) (location : List Char) : Prop :=
  (state.load.source? location).isSome ∨ location ∈ state.lost.map Prod.fst

theorem leaves_of_settled {waiter : Waiter} {before after : List Waiter}
    (split : state.load.waiters = before ++ waiter :: after)
    (settled : state.Settled waiter.location) :
    ∃ later, Leaves context state (before ++ after) later := by
  rcases settled with some | lost
  · obtain ⟨source, found⟩ := Option.isSome_iff_exists.mp some
    obtain ⟨waiters, opened, jobs⟩ :=
      @waiters_answer (state.setWaiters (before ++ after)) source waiter
    exact ⟨_, .resume split (source?_eq_some_iff.mp found), waiters, opened, jobs⟩
  · obtain ⟨⟨location, error⟩, member, same⟩ := List.mem_map.mp lost
    obtain rfl : location = waiter.location := same
    exact ⟨_, .giveUp split member, rfl, rfl, rfl⟩

theorem settled_receive (context : LoadContext) (state : Progress) (location : List Char)
    (result : Except Error Fetched) :
    (state.receive context location result).Settled location ∧
      (state.receive context location result).load.waiters = state.load.waiters ∧
      (state.receive context location result).jobs = state.jobs ∧
      state.opened <+: (state.receive context location result).opened := by
  unfold Progress.receive
  split
  next source read =>
    have known := source?_deliverSource state.load location location source
    have some : ((state.register location source).load.source? location).isSome :=
      Option.isSome_of_eq_some (known.trans (if_pos rfl))
    exact ⟨.inl some, rfl, rfl, List.prefix_append _ _⟩
  next error refused => exact ⟨.inr (by simp), rfl, rfl, List.prefix_refl _⟩

/-- A reference waits for its source to be read and for nothing else. It goes on at once if its source is
known; if not, it goes on as soon as the location answers, whatever that is, and no task has to go on
for the location to be asked. -/
def WaitsForAnswer (context : LoadContext) (state : Progress) (waiter : Waiter) : Prop :=
  ∀ before after, state.load.waiters = before ++ waiter :: after →
    (∃ later, Leaves context state (before ++ after) later) ∨
    state.load.sources.get? waiter.location = some none ∧
      waiter.location ∉ state.lost.map Prod.fst ∧
      ∀ result, ∃ later,
        Leaves context (state.receive context waiter.location result) (before ++ after) later

theorem waitsForAnswer (steps : Steps context answers (Progress.rooted root first) state)
    {waiter : Waiter} (member : waiter ∈ state.load.waiters) :
    WaitsForAnswer context state waiter := by
  intro before after split
  obtain ⟨value, known⟩ := mem_keys_iff.mp (known_waiter steps member)
  by_cases lost : waiter.location ∈ state.lost.map Prod.fst
  · exact .inl (leaves_of_settled split (.inr lost))
  · cases value with
    | some source =>
      refine .inl (leaves_of_settled split (.inl ?_))
      exact Option.isSome_of_eq_some (source?_eq_some_iff.mpr known)
    | none =>
      refine .inr ⟨known, lost, fun result => ?_⟩
      obtain ⟨settled, waiters, -⟩ := settled_receive context state waiter.location result
      exact leaves_of_settled (waiters.trans split) settled

theorem exists_step (steps : Steps context answers (Progress.rooted root first) state)
    (answer : ∀ location, ∃ result, answers location result) :
    state.IsDone ∨ state.failures ≠ [] ∨ ∃ later, Step context answers state later := by
  by_cases failed : state.failures = []
  · cases opened : state.opened with
    | cons source rest =>
      exact .inr (.inr ⟨_, @Step.openSource context answers state source [] rest opened⟩)
    | nil =>
      cases jobs : state.jobs with
      | cons job rest => exact .inr (.inr ⟨_, @Step.perform context answers state job [] rest jobs⟩)
      | nil =>
        cases waiters : state.load.waiters with
        | nil => exact .inl ⟨opened, jobs, waiters, failed⟩
        | cons waiter rest =>
          have member : waiter ∈ state.load.waiters := waiters ▸ List.mem_cons_self
          refine .inr (.inr ?_)
          rcases waitsForAnswer steps member [] rest waiters with
            ⟨later, leaves⟩ | ⟨awaited, fresh, -⟩
          · exact ⟨later, leaves.step.of_silent⟩
          · obtain ⟨result, answer⟩ := answer waiter.location
            exact ⟨_, receive_step awaited fresh answer⟩
  · exact .inr (.inl failed)

end waits

end ToolGraph.Load
