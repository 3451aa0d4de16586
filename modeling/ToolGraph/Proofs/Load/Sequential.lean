import ToolGraph.Proofs.Fetch
import ToolGraph.Proofs.Load.Steps

/-!
The loader fetches one source at a time and goes after all its references at once. That is one of the
orders in which the tasks of a load may run.
-/
namespace ToolGraph

def World.answers (world : World) (request : LoadRequest) : Load.Answers := fun location result =>
  ∃ later, World.Later request.patience world later ∧
    (Fetch.location request.patience location later).1 = result

namespace Load
open Entries
variable {context : LoadContext} {answers : Answers}

def resting (load : Load) : Progress := ⟨load, [], [], [], []⟩

/-- References wait for what is still to be delivered, and for all of it. -/
structure Idle (load : Load) : Prop where
  waits : ∀ waiter ∈ load.waiters, load.sources.get? waiter.location = some none
  awaited : ∀ {location}, load.sources.get? location = some none →
    ∃ waiter ∈ load.waiters, waiter.location = location

/-- Some order of the tasks fails with an error. -/
def Breaks (context : LoadContext) (answers : Answers) (state : Progress) (error : Error) : Prop :=
  ∃ later origin cause, Steps context answers state later ∧ (origin, cause) ∈ later.failures ∧
    error = later.load.failure origin cause

theorem Breaks.after {state later : Progress} {error : Error}
    (steps : Steps context answers state later) (breaks : Breaks context answers later error) :
    Breaks context answers state error := by
  obtain ⟨last, origin, cause, rest, member, same⟩ := breaks
  exact ⟨last, origin, cause, steps.trans rest, member, same⟩

/-! ### Answers to what waits -/

theorem linkSelected_ok {load later : Load} {source : Source} {subTool tool reference : String}
    (linked : load.linkSelected source subTool tool reference = .ok later) :
    ∃ target, source.select subTool = .ok target ∧ later = load.link tool reference target := by
  unfold linkSelected at linked
  split at linked
  next target selected => exact ⟨target, selected, (Except.ok.inj linked).symm⟩
  next => simp at linked

theorem linkSelected_error {load : Load} {source : Source} {subTool tool reference : String}
    {error : Error} (refused : load.linkSelected source subTool tool reference = .error error) :
    ∃ cause, source.select subTool = .error cause ∧ error = cause.onReference tool reference := by
  unfold linkSelected at refused
  split at refused
  next => simp at refused
  next cause refusal => exact ⟨cause, refusal, (Except.error.inj refused).symm⟩

theorem cancel_steps {load : Load} {opened : List Source} {jobs : List Job}
    {lost failures : List (List Char × Error)} (failed : failures ≠ []) (keep : Waiter → Bool)
    (kept rest : List Waiter) :
    Steps context answers ⟨{ load with waiters := kept ++ rest }, opened, jobs, lost, failures⟩
      ⟨{ load with waiters := kept ++ rest.filter keep }, opened, jobs, lost, failures⟩ := by
  induction rest generalizing kept with
  | nil => exact .refl
  | cons waiter rest ih =>
    by_cases stays : keep waiter
    · rw [List.filter_cons_of_pos stays]
      simpa only [List.append_assoc, List.cons_append, List.nil_append] using ih (kept ++ [waiter])
    · rw [List.filter_cons_of_neg stays]
      exact .head (@Step.cancelWaiter context answers _ waiter kept rest rfl failed) (ih kept)

theorem resume_steps {location : List Char} {source : Source} {opened : List Source}
    {jobs : List Job} {lost failures : List (List Char × Error)} {load later : Load}
    {rest kept : List Waiter} {failed : Option (Waiter × Error)}
    (arrived : load.sources.get? location = some (some source))
    (resumed : resume source (rest.filter (·.location == location)) load = (later, failed)) :
    later.sources = load.sources ∧ later.waiters = load.waiters ∧
      Steps context answers ⟨{ load with waiters := kept ++ rest }, opened, jobs, lost, failures⟩
        ⟨{ later with waiters := kept ++ rest.filter (fun waiter => !waiter.location == location) },
          opened, jobs, lost,
          failures ++ failed.toList.map (fun failure => (failure.1.origin, failure.2))⟩ := by
  induction rest generalizing load kept with
  | nil =>
    obtain ⟨rfl, rfl⟩ := Prod.mk.inj resumed
    exact ⟨rfl, rfl, by simpa using .refl⟩
  | cons waiter rest ih =>
    by_cases same : waiter.location == location
    · rw [List.filter_cons_of_pos (by simpa using same)] at resumed
      rw [List.filter_cons_of_neg (by simpa using same)]
      have answered : Step context answers
          ⟨{ load with waiters := kept ++ waiter :: rest }, opened, jobs, lost, failures⟩ _ :=
        .resume rfl (eq_of_beq same ▸ arrived)
      simp only [resume] at resumed
      split at resumed
      next linked equal =>
        obtain ⟨target, selected, rfl⟩ := linkSelected_ok equal
        obtain ⟨sources, waiters, steps⟩ := @ih (load.link _ _ _) kept arrived resumed
        simp only [Progress.answer, Progress.setWaiters, linkSelected, selected] at answered
        exact ⟨sources, waiters, .head answered steps⟩
      next error equal =>
        obtain ⟨rfl, rfl⟩ := Prod.mk.inj resumed
        obtain ⟨cause, refused, rfl⟩ := linkSelected_error equal
        simp only [Progress.answer, Progress.setWaiters, linkSelected, refused] at answered
        exact ⟨rfl, rfl, .head answered (cancel_steps (by simp) _ kept rest)⟩
    · rw [List.filter_cons_of_neg (by simpa using same)] at resumed
      rw [List.filter_cons_of_pos (by simpa using same)]
      have moved := @ih load (kept ++ [waiter]) arrived resumed
      simpa only [List.append_assoc, List.cons_append, List.nil_append] using moved

theorem resume_failed {source : Source} {waiters : List Waiter} {load later : Load}
    {waiter : Waiter} {error : Error}
    (failed : resume source waiters load = (later, some (waiter, error))) :
    ∃ cause, error = Error.onReference waiter.tool waiter.reference cause := by
  induction waiters generalizing load with
  | nil => simp [resume] at failed
  | cons next rest ih =>
    simp only [resume] at failed
    split at failed
    next => exact ih failed
    next cause refused =>
      simp only [Prod.mk.injEq, Option.some.injEq] at failed
      obtain ⟨-, rfl, rfl⟩ := failed
      obtain ⟨cause, -, same⟩ := linkSelected_error refused
      exact ⟨cause, same⟩

/-! ### References one after the other -/

theorem followAll_steps {origin : List Char} {opened : List Source} {load later : Load}
    {references : List (Tool × String)} {lost failures : List (List Char × Error)}
    {failed : Option Error} (followed : followAll context origin references load = (later, failed)) :
    ∃ more, Steps context answers
        ⟨load, opened, references.map (fun reference => ⟨origin, reference.1, reference.2⟩), lost,
          failures⟩
        ⟨later, opened, [], lost, failures ++ more⟩ ∧
      (failed = none → more = []) ∧ ∀ error, failed = some error → (origin, error) ∈ more := by
  induction references generalizing load failures failed with
  | nil =>
    obtain ⟨rfl, rfl⟩ := Prod.mk.inj followed
    exact ⟨[], by simpa using .refl, fun _ => rfl, by simp⟩
  | cons head rest ih =>
    obtain ⟨tool, reference⟩ := head
    cases moved : follow context origin tool reference load with
    | mk next first =>
      simp only [followAll, moved, Prod.mk.injEq] at followed
      obtain ⟨same, kept⟩ := followed
      have step := @Step.perform context answers
        ⟨load, opened, _, lost, failures⟩ ⟨origin, tool, reference⟩
        [] (rest.map (fun reference => ⟨origin, reference.1, reference.2⟩)) rfl
      simp only [Progress.perform, moved] at step
      cases first with
      | none =>
        obtain ⟨more, others, calm, known⟩ := @ih next failures _ (Prod.ext same kept)
        exact ⟨more, .head step others, calm, known⟩
      | some error =>
        obtain rfl : some error = failed := kept
        obtain ⟨more, others, -, -⟩ := @ih next (failures ++ [(origin, error)]) _ (Prod.ext same rfl)
        refine ⟨(origin, error) :: more, .head step ?_, by simp, by simp⟩
        simpa only [Progress.fail, List.append_assoc, List.cons_append, List.nil_append] using others

theorem Idle.follow {load : Load} (idle : Idle load) (context : LoadContext) (origin : List Char)
    (tool : Tool) (reference : String) : Idle (follow context origin tool reference load).1 := by
  rcases follow_cases context origin tool reference load with
    ⟨error, -, moved⟩ | ⟨id, -, moved⟩ | ⟨target, -, moved⟩ |
    ⟨location, subTool, source, id, -, -, -, moved⟩ |
    ⟨location, subTool, source, error, -, -, -, moved⟩ |
    ⟨location, subTool, -, missing, moved⟩
  all_goals rw [moved]
  case inr.inr.inr.inr.inr =>
    have kept : ∀ {place}, load.sources.get? place = some none →
        (load.sources.putNew location none).get? place = some none := by
      intro place known
      rw [get?_putNew, known, Option.some_or]
    constructor
    · intro waiter member
      rcases List.mem_append.mp member with old | new
      · exact kept (idle.waits waiter old)
      · obtain rfl := List.mem_singleton.mp new
        change (load.sources.putNew location none).get? location = some none
        cases known : load.sources.get? location with
        | none => rw [get?_putNew, known]; simp
        | some value =>
          cases value with
          | none => exact kept known
          | some source => simp [source?, known] at missing
    · intro place known
      change (load.sources.putNew location none).get? place = some none at known
      rw [get?_putNew, Option.or_eq_some_iff] at known
      rcases known with old | ⟨-, new⟩
      · obtain ⟨waiter, member, same⟩ := idle.awaited old
        exact ⟨waiter, List.mem_append_left _ member, same⟩
      · refine ⟨_, List.mem_append_right _ (List.mem_singleton_self _), ?_⟩
        by_contra other
        simp [other] at new
  all_goals exact ⟨idle.waits, idle.awaited⟩

theorem Idle.followAll {load : Load} (idle : Idle load) (context : LoadContext)
    (origin : List Char) (references : List (Tool × String)) :
    Idle (followAll context origin references load).1 := by
  induction references generalizing load with
  | nil => exact idle
  | cons head rest ih =>
    simp only [Load.followAll]
    exact ih (idle.follow context origin head.1 head.2)

/-! ### Deliveries -/

theorem Idle.delivered {load later : Load} (idle : Idle load) {location : List Char}
    {source : Source} (sources : later.sources = load.sources.put location (some source))
    (waiters : later.waiters = load.waiters.filter (fun waiter => !waiter.location == location)) :
    Idle later := by
  constructor
  · intro waiter member
    rw [waiters] at member
    obtain ⟨known, other⟩ := List.mem_filter.mp member
    rw [sources, get?_put, if_neg (Ne.symm (by simpa using other))]
    exact idle.waits waiter known
  · intro place pending
    rw [sources, get?_put] at pending
    split at pending
    next => simp at pending
    next other =>
      obtain ⟨waiter, member, rfl⟩ := idle.awaited pending
      refine ⟨waiter, ?_, rfl⟩
      rw [waiters]
      exact List.mem_filter.mpr ⟨member, by simpa using Ne.symm other⟩

theorem Error.onReference_onReference (tool reference : String) (error : Error) :
    (error.onReference tool reference).onReference tool reference = error.onReference tool reference := by
  cases error <;> rfl

/-- A source that is taken in: first those who wait for it go on, then its own references. -/
theorem accept_steps {load : Load} {location : List Char} {source : Source} (idle : Idle load) :
    match load.accept context location source with
    | .ok later => Idle later ∧
        Steps context answers ⟨load.deliverSource location source, [source], [], [], []⟩ later.resting
    | .error error =>
        Breaks context answers ⟨load.deliverSource location source, [source], [], [], []⟩ error := by
  generalize resumed : resume source (load.waiters.filter (·.location == location))
    { load.addTools source with
      sources := load.sources.put location (some source)
      waiters := load.waiters.filter (fun waiter => !waiter.location == location) } = answered
  obtain ⟨middle, failed⟩ := answered
  obtain ⟨sources, waiters, steps⟩ := @resume_steps context answers location source [source] [] [] []
    _ _ load.waiters [] _
    ((get?_put load.sources location (some source) location).trans (if_pos rfl)) resumed
  simp only at sources waiters
  rw [List.nil_append, List.nil_append, ← waiters] at steps
  generalize followed : followAll context source.location (middle.references source) middle = all
  obtain ⟨final, refused⟩ := all
  obtain ⟨more, own, calm, known⟩ := @followAll_steps context answers _ [] _ _ _ []
    (failed.toList.map (fun failure => (failure.1.origin, failure.2))) _ followed
  have run := steps.trans (.head (@Step.openSource context answers _ source [] [] rfl) own)
  have idle : Idle final := by
    have moved := (idle.delivered sources waiters).followAll context source.location
      (middle.references source)
    rwa [followed] at moved
  simp only [accept, List.partition_eq_filter_filter, Function.comp_def, resumed, followSource,
    followed]
  cases failed with
  | some failure =>
    obtain ⟨waiter, error⟩ := failure
    obtain ⟨cause, rfl⟩ := resume_failed resumed
    refine ⟨_, waiter.origin, cause.onReference waiter.tool waiter.reference, run, by simp, ?_⟩
    simp only [waiterFailure, Error.onReference_onReference]
  | none =>
    cases refused with
    | some error =>
      exact ⟨_, source.location, error, run, List.mem_append_right _ (known error rfl), rfl⟩
    | none =>
      obtain rfl := calm rfl
      exact ⟨idle, run⟩

theorem mem_pending_iff {load : Load} (apart : load.sources.keys.Nodup) {location : List Char} :
    location ∈ load.pending ↔ load.sources.get? location = some none := by
  simp only [pending, keys, List.mem_map, List.mem_filter]
  constructor
  · rintro ⟨⟨place, value⟩, ⟨member, missing⟩, rfl⟩
    obtain rfl := Option.isNone_iff_eq_none.mp missing
    exact get?_of_mem apart member
  · intro found
    exact ⟨(location, none), ⟨mem_of_get? found, rfl⟩, rfl⟩

theorem failure_waiters (load : Load) (waiters : List Waiter) (origin : List Char) (error : Error) :
    Load.failure { load with waiters } origin error = load.failure origin error := by
  have trace : ∀ bound seen location error,
      traceBack { load with waiters } bound seen location error =
        load.traceBack bound seen location error := by
    intro bound
    induction bound with
    | zero => exact fun _ _ _ => rfl
    | succ bound ih =>
      intro seen location error
      simp only [traceBack, originOf, ih]
      rfl
  unfold Load.failure
  split
  next => rfl
  next => exact trace _ _ _ _

theorem deliver_steps {load : Load} {location : List Char} {result : Except Error Fetched}
    (apart : load.sources.keys.Nodup) (idle : Idle load) (awaited : location ∈ load.pending)
    (answer : answers location result) :
    match load.deliver context location result with
    | .ok later => Idle later ∧ Steps context answers load.resting later.resting
    | .error error => Breaks context answers load.resting error := by
  have awaited := (mem_pending_iff apart).mp awaited
  unfold deliver
  cases read : result.bind (Source.read context.base context.model) with
  | ok source =>
    cases result with
    | error error => simp [Except.bind] at read
    | ok fetched =>
      have arrival : Step context answers load.resting (load.resting.register location source) :=
        .arrive awaited (by simp [resting]) answer read
      have taken := @accept_steps context answers load location source idle
      simp only
      cases accepted : load.accept context location source with
      | ok later =>
        rw [accepted] at taken
        exact ⟨taken.1, .head arrival taken.2⟩
      | error error =>
        rw [accepted] at taken
        exact taken.after (.single arrival)
  | error error =>
    obtain ⟨waiter, member, same⟩ := idle.awaited awaited
    have some : (load.waiters.find? (·.location == location)).isSome :=
      List.find?_isSome.mpr ⟨waiter, member, beq_iff_eq.mpr same⟩
    obtain ⟨waiter, found⟩ := Option.isSome_iff_exists.mp some
    have same : waiter.location = location := by simpa using List.find?_some found
    obtain ⟨before, after, split⟩ := List.append_of_mem (List.mem_of_find?_eq_some found)
    have lost : Step context answers load.resting
        { load.resting with lost := [(location, error)] } :=
      .lose awaited (by simp [resting]) answer read
    have given := @Step.giveUp context answers { load.resting with lost := [(location, error)] } waiter
      error before after split (by simp [same])
    simp only [rejection, found]
    refine ⟨_, waiter.origin, _, .tail (.single lost) given, List.mem_append_right _
      (List.mem_singleton_self _), ?_⟩
    exact (failure_waiters load (before ++ after) _ _).symm

theorem drain_steps {request : LoadRequest} {origin : World} {root : List Char} {first : Source}
    {bound peak : Nat} {load : Load} {world : World}
    (sound : load.resting.Sound context (origin.answers request) root first) (idle : Idle load)
    (past : World.Later request.patience origin world) :
    match (drain request context bound peak load world).1 with
    | .ok later => Idle later ∧ later.pending = [] ∧
        Steps context (origin.answers request) load.resting later.resting
    | .error error =>
        Breaks context (origin.answers request) load.resting error ∨ error = timeUp request := by
  induction bound generalizing peak load world with
  | zero =>
    simp only [drain]
    by_cases none : load.pending.isEmpty
    · rw [if_pos none]
      exact ⟨idle, List.isEmpty_iff.mp none, .refl⟩
    · rw [if_neg none]
      exact .inr rfl
  | succ bound ih =>
    simp only [drain]
    cases awaited : load.pending with
    | nil => exact ⟨idle, awaited, .refl⟩
    | cons location rest =>
      have moved := @deliver_steps context (origin.answers request) load location _
        sound.load.apart idle (awaited ▸ List.mem_cons_self) ⟨world, past, rfl⟩
      simp only
      cases delivered : load.deliver context location
          (Fetch.location request.patience location world).1 with
      | error error =>
        rw [delivered] at moved
        exact .inl moved
      | ok next =>
        rw [delivered] at moved
        obtain ⟨idle, steps⟩ := moved
        have rest := @ih (max peak (load.openRequests request.settings)) next
          (Fetch.location request.patience location world).2 (sound.steps steps) idle
          (past.fetch location)
        simp only
        generalize (drain request context bound _ next _).1 = result at rest
        cases result with
        | ok later => exact ⟨rest.1, rest.2.1, steps.trans rest.2.2⟩
        | error error => exact rest.imp (Breaks.after steps) id

theorem rootFound_of_fetchRoot {request : LoadRequest} {world later : World}
    {location : List Char} {fetched : Fetched}
    (fetches : request.fetchRoot world = (.ok (location, fetched), later)) :
    RootFound request world.place (world.answers request) location (.ok fetched) ∧
      World.Later request.patience world later := by
  unfold LoadRequest.fetchRoot at fetches
  split at fetches
  next => simp at fetches
  next place rooted =>
    split at fetches
    next content written text =>
      simp only [Prod.mk.injEq, Except.ok.injEq] at fetches
      obtain ⟨⟨rfl, rfl⟩, rfl⟩ := fetches
      exact ⟨⟨rooted, by simp [RootAnswers, text]⟩, .now⟩
    next written text =>
      simp only [Prod.mk.injEq] at fetches
      obtain ⟨answered, rfl⟩ := fetches
      cases answer : (Fetch.location request.patience place world).1 with
      | error error => simp [answer, Except.map] at answered
      | ok content =>
        simp only [answer, Except.map, Except.ok.injEq, Prod.mk.injEq] at answered
        obtain ⟨rfl, rfl⟩ := answered
        refine ⟨⟨rooted, ?_⟩, .fetch place .now⟩
        simp only [RootAnswers, text]
        exact ⟨world, .now, answer⟩

theorem isDone_resting {load : Load} (apart : load.sources.keys.Nodup) (idle : Idle load)
    (none : load.pending = []) : load.resting.IsDone := by
  refine ⟨rfl, rfl, List.eq_nil_iff_forall_not_mem.mpr ?_, rfl⟩
  intro waiter member
  have waits := (mem_pending_iff apart).mpr (idle.waits waiter member)
  simp [none] at waits

theorem refused_of_fetchRoot {request : LoadRequest} {world later : World} {error : Error}
    (fetches : request.fetchRoot world = (.error error, later)) :
    request.rootLocation (request.context world) = .error error ∨
      ∃ location, RootFound request world.place (world.answers request) location (.error error) := by
  unfold LoadRequest.fetchRoot at fetches
  split at fetches
  next cause refused =>
    obtain ⟨same, -⟩ := Prod.mk.inj fetches
    exact .inl (Except.error.inj same ▸ refused)
  next place rooted =>
    split at fetches
    next => simp at fetches
    next written text =>
      simp only [Prod.mk.injEq] at fetches
      obtain ⟨answered, -⟩ := fetches
      cases answer : (Fetch.location request.patience place world).1 with
      | ok content => simp [answer, Except.map] at answered
      | error cause =>
        simp only [answer, Except.map, Except.error.injEq] at answered
        subst answered
        refine .inr ⟨place, rooted, ?_⟩
        simp only [RootAnswers, text]
        exact ⟨world, .now, answer⟩

theorem noRoot_of_fetchRoot {request : LoadRequest} {world later : World} {error : Error}
    (fetches : request.fetchRoot world = (.error error, later)) :
    Outcome request world.place (world.answers request) (.error error) := by
  rcases refused_of_fetchRoot fetches with refused | ⟨location, found⟩
  · exact .noLocation refused
  · exact .noRoot found rfl

/-- The loader runs the tasks in one of their orders, to the end or to a failure, unless it has no
time left. -/
theorem complete_steps (request : LoadRequest) (world : World) :
    match (complete request world).1 with
    | .ok (load, entry) => Completes request world.place (world.answers request) load entry
    | .error error => Outcome request world.place (world.answers request) (.error error) ∨
        error = timeUp request := by
  unfold complete
  by_cases late : request.isOver
  · rw [if_pos late]
    exact .inr rfl
  · rw [if_neg late]
    simp only
    cases fetches : request.fetchRoot world with
    | mk fetched later =>
      cases fetched with
      | error error => exact .inl (noRoot_of_fetchRoot fetches)
      | ok root =>
        obtain ⟨location, fetched⟩ := root
        obtain ⟨found, past⟩ := rootFound_of_fetchRoot fetches
        simp only [begin]
        cases read : Source.read (request.context world).base (request.context world).model fetched with
        | error error => exact .inl (.noRoot found read)
        | ok source =>
          have root : RootRead request world.place (world.answers request) location source :=
            ⟨fetched, found, read⟩
          simp only
          cases selected : source.select request.subToolName with
          | error error => exact .inl (.noEntry root selected)
          | ok entry =>
            have reaches : ∀ {error}, Breaks (request.context world) (world.answers request)
                (Progress.rooted location source) error →
                Outcome request world.place (world.answers request) (.error error) := by
              rintro error ⟨last, origin, cause, steps, member, rfl⟩
              exact .failed ⟨location, source, root, ⟨entry, selected⟩, steps⟩ (.failure member)
            have taken := @accept_steps (request.context world) (world.answers request) start location
              source ⟨by simp [start], by simp [start]⟩
            simp only
            cases accepted : start.accept (request.context world) location source with
            | error error =>
              rw [accepted] at taken
              exact .inl (reaches taken)
            | ok rested =>
              rw [accepted] at taken
              obtain ⟨idle, begins⟩ := taken
              have sound := (Progress.sound_rooted _ _ location source).steps begins
              have rest := @drain_steps (request.context world) request world location source
                (sourceBound world) (if Location.isUrl location then 1 else 0) rested
                later sound idle past
              simp only [Except.map]
              generalize (drain request (request.context world) (sourceBound world) _
                rested later).1 = result at rest
              cases result with
              | error error => exact rest.imp (fun breaks => reaches (breaks.after begins)) id
              | ok final =>
                obtain ⟨idle, none, ends⟩ := rest
                have all := begins.trans ends
                have sound := (Progress.sound_rooted _ _ location source).steps all
                exact ⟨Bool.eq_false_iff.mpr late, location, source, final.resting, root, selected,
                  all, isDone_resting sound.load.apart idle none, rfl⟩

theorem completes_of_complete {request : LoadRequest} {world : World} {load : Load} {entry : String}
    (completed : (complete request world).1 = .ok (load, entry)) :
    Completes request world.place (world.answers request) load entry := by
  have steps := complete_steps request world
  rw [completed] at steps
  exact steps

theorem run_eq_ok {request : LoadRequest} {world : World} {program : Program} :
    (run request world).result = .ok program ↔
      ∃ load entry, (complete request world).1 = .ok (load, entry) ∧
        program = load.program request.name entry := by
  simp only [run]
  cases completed : (complete request world).1 with
  | error error => simp [Except.map]
  | ok done =>
    simp only [Except.map, Except.ok.injEq]
    constructor
    · rintro rfl
      exact ⟨done.1, done.2, rfl, rfl⟩
    · rintro ⟨load, entry, rfl, rfl⟩
      rfl

/-- What the loader returns comes of one of the orders of the tasks, unless it has no time left. -/
theorem run_outcome (request : LoadRequest) (world : World) :
    Outcome request world.place (world.answers request) (run request world).result ∨
      (run request world).result = .error (timeUp request) := by
  have steps := complete_steps request world
  simp only [run]
  generalize (complete request world).1 = result at steps
  cases result with
  | ok done => exact .inl (.completed steps)
  | error error => exact steps.imp id (congrArg Except.error)

/-- A request may return a program in a world: the loader does, or it comes of the tasks in some other
order, whatever the locations answer. -/
def Returns (request : LoadRequest) (world : World) (program : Program) : Prop :=
  (run request world).result = .ok program ∨
    ∃ answers, Outcome request world.place answers (.ok program)

theorem Returns.completes {request : LoadRequest} {world : World} {program : Program}
    (returns : Returns request world program) :
    ∃ answers load, Completes request world.place answers load program.entry ∧
      program = load.program request.name program.entry := by
  rcases returns with loaded | ⟨answers, outcome⟩
  · obtain ⟨load, entry, completed, rfl⟩ := run_eq_ok.mp loaded
    exact ⟨_, load, completes_of_complete completed, rfl⟩
  · cases outcome with
    | completed done => exact ⟨answers, _, done, rfl⟩

end Load

/-! ### Small worlds -/

def World.ofFiles (cwd : String) (files : List (String × String)) : World :=
  { cwd := cwd.toList
    home := "/home".toList
    files := ⟨files.map (fun file => (file.1.toList, Text.encode file.2.toList)), []⟩
    web := []
    cache := none
    requests := []
    reads := []
    waits := [] }

def LoadRequest.of (reference : String) : LoadRequest :=
  ⟨.reference reference, "", "", LoaderSettings.initial⟩

end ToolGraph
