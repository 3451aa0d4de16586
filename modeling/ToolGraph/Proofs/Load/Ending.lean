import ToolGraph.Proofs.Load.Termination

/-!
The loader comes to an end as its tasks do. What it fetches one after the other is a run of the tasks,
and as every fetch but the last brings a source, it is over before the bound on their number is.
-/
namespace ToolGraph.Load
open Entries

section turns
variable {context : LoadContext} {answers : Answers} {patience : Fetch.Patience} {world : World}
  {start state later : Progress} {locations : List (List Char)}

theorem Turns.tasks (turns : Turns context patience world start locations state)
    (steps : Steps context (fun _ _ => False) state later) :
    Turns context patience world start locations later := by
  induction steps with
  | refl => exact turns
  | tail _ step ih => exact ih.task step

theorem Step.silent_or_receive (step : Step context answers state later) :
    Step context (fun _ _ => False) state later ∨
      ∃ location result, state.load.sources.get? location = some none ∧
        location ∉ state.lost.map Prod.fst ∧ answers location result ∧
        later = state.receive context location result := by
  cases step with
  | @arrive location fetched source awaited fresh answer read =>
    refine .inr ⟨location, .ok fetched, awaited, fresh, answer, ?_⟩
    have read : (Except.ok fetched).bind (Source.read context.base context.model) = .ok source := read
    simp only [Progress.receive, read]
  | @lose location result error awaited fresh answer refused =>
    refine .inr ⟨location, result, awaited, fresh, answer, ?_⟩
    simp only [Progress.receive, refused]
  | openSource next => exact .inl (.openSource next)
  | perform next => exact .inl (.perform next)
  | resume next arrived => exact .inl (.resume next arrived)
  | giveUp next lost => exact .inl (.giveUp next lost)
  | cancelJob next failed => exact .inl (.cancelJob next failed)
  | cancelWaiter next failed => exact .inl (.cancelWaiter next failed)

theorem Step.lost (step : Step context answers state later) : state.lost <+: later.lost := by
  cases step with
  | perform => rw [lost_perform]
  | resume => rw [lost_answer]; exact List.prefix_refl _
  | lose => exact List.prefix_append _ _
  | arrive | openSource | giveUp | cancelJob | cancelWaiter => exact List.prefix_refl _

theorem Progress.Settled.step {location : List Char} (settled : state.Settled location)
    (step : Step context answers state later) : later.Settled location := by
  rcases settled with found | lost
  · obtain ⟨source, found⟩ := Option.isSome_iff_exists.mp found
    exact .inl (Option.isSome_of_eq_some (step.grows.sources found))
  · exact .inr (List.map_subset Prod.fst step.lost.subset lost)

/-- Once the only location that answers has done so, the tasks go on by themselves. -/
theorem Steps.silent {location : List Char} {result : Except Error Fetched}
    (steps : Steps context (fun place found => place = location ∧ found = result) state later)
    (settled : state.Settled location) : Steps context (fun _ _ => False) state later := by
  suffices both : Steps context (fun _ _ => False) state later ∧ later.Settled location from both.1
  induction steps with
  | refl => exact ⟨.refl, settled⟩
  | tail _ step ih =>
    refine ⟨ih.1.tail ?_, ih.2.step step⟩
    rcases step.silent_or_receive with silent | ⟨place, found, awaited, fresh, ⟨rfl, -⟩, -⟩
    · exact silent
    · rcases ih.2 with read | lost
      · simp [source?, awaited] at read
      · exact absurd lost fresh

theorem receive_of_resting {load : Load} (idle : Idle load)
    (step : Step context answers load.resting later) :
    ∃ location result, load.sources.get? location = some none ∧ answers location result ∧
      later = load.resting.receive context location result := by
  rcases step.silent_or_receive with silent | ⟨location, result, awaited, -, answer, same⟩
  · cases silent with
    | arrive _ _ answer => exact answer.elim
    | lose _ _ answer => exact answer.elim
    | openSource next => simp [resting] at next
    | perform next => simp [resting] at next
    | @resume waiter source before after next arrived =>
      have member : waiter ∈ load.waiters := by
        rw [show load.waiters = before ++ waiter :: after from next]
        simp
      simp [idle.waits waiter member, resting] at arrived
    | giveUp _ lost => simp [resting] at lost
    | cancelJob _ failed => simp [resting] at failed
    | cancelWaiter _ failed => simp [resting] at failed
  · exact ⟨location, result, awaited, answer, same⟩

theorem Turns.answer {load : Load} {location : List Char}
    (turns : Turns context patience world start locations load.resting) (idle : Idle load)
    (steps : Steps context (fun place found => place = location ∧
      found = (Fetch.location patience location (world.afterFetches patience locations)).1)
      load.resting later) :
    later = load.resting ∨ Turns context patience world start (locations ++ [location]) later := by
  rcases Relation.ReflTransGen.cases_head steps with same | ⟨next, step, rest⟩
  · exact .inl same.symm
  · obtain ⟨place, result, awaited, ⟨rfl, rfl⟩, rfl⟩ := receive_of_resting idle step
    have settled := (settled_receive context load.resting place
      (Fetch.location patience place (world.afterFetches patience locations)).1).1
    have fetched := turns.fetch awaited (by simp [resting])
    exact .inr (fetched.tasks (Steps.silent rest settled))

def FailsAfter (context : LoadContext) (patience : Fetch.Patience) (world : World)
    (start : Progress) (locations : List (List Char)) (error : Error) : Prop :=
  ∃ state origin cause, Turns context patience world start locations state ∧
    (origin, cause) ∈ state.failures ∧ error = state.load.failure origin cause

theorem Turns.sourcesApart {root : List Char} {first : Source}
    (turns : Turns context patience world (Progress.rooted root first) locations state) :
    state.load.sources.keys.Nodup := by
  have steps : Steps context (fun _ _ => True) _ state := turns.steps fun _ _ => trivial
  exact ((Progress.sound_rooted context _ root first).steps steps).load.apart

theorem deliver_turns {root : List Char} {first : Source} {load : Load} {location : List Char}
    (turns : Turns context patience world (Progress.rooted root first) locations load.resting)
    (idle : Idle load) (awaited : location ∈ load.pending) :
    match load.deliver context location
        (Fetch.location patience location (world.afterFetches patience locations)).1 with
    | .ok later => Idle later ∧ load.readLocations.length < later.readLocations.length ∧
        Turns context patience world (Progress.rooted root first) (locations ++ [location])
          later.resting
    | .error error =>
        FailsAfter context patience world (Progress.rooted root first) (locations ++ [location])
          error := by
  have apart : load.sources.keys.Nodup := turns.sourcesApart
  let only : Answers := fun place found => place = location ∧
    found = (Fetch.location patience location (world.afterFetches patience locations)).1
  have moved := @deliver_steps context only load location _ apart idle awaited ⟨rfl, rfl⟩
  cases delivered : load.deliver context location
      (Fetch.location patience location (world.afterFetches patience locations)).1 with
  | ok later =>
    rw [delivered] at moved
    have found := source?_of_deliver idle delivered
    have missing : load.source? location = none := by
      simp [source?, (mem_pending_iff apart).mp awaited]
    rcases turns.answer idle moved.2 with same | done
    · rw [show later = load from congrArg Progress.load same] at found
      simp [missing] at found
    · have grows : Grows load later := Steps.grows moved.2
      exact ⟨moved.1, length_readLocations_lt apart done.sourcesApart grows missing found, done⟩
  | error error =>
    rw [delivered] at moved
    obtain ⟨state, origin, cause, steps, failed, same⟩ := moved
    rcases turns.answer idle steps with rfl | done
    · simp [resting] at failed
    · exact ⟨state, origin, cause, done, failed, same⟩

end turns

/-! ### The loader -/

section loader
variable {request : LoadRequest} {context : LoadContext} {world : World} {root : List Char}
  {first : Source}

/-- Each fetch of a loader that goes on brings a source, so that there is no end of time before the
sources have come to an end. -/
theorem drain_turns {most : Nat}
    (few : ∀ {locations state}, Turns context request.patience world (Progress.rooted root first)
      locations state → state.load.readLocations.length ≤ most)
    {bound peak : Nat} {load : Load} {locations : List (List Char)}
    (turns : Turns context request.patience world (Progress.rooted root first) locations
      load.resting)
    (idle : Idle load) (enough : most < bound + load.readLocations.length) :
    let before := world.afterFetches request.patience locations
    let more := drainLocations request context bound load before
    more.length + load.readLocations.length ≤ most + 1 ∧
      match (drain request context bound peak load before).1 with
      | .ok later => later.resting.IsDone ∧ Turns context request.patience world
          (Progress.rooted root first) (locations ++ more) later.resting
      | .error error =>
          FailsAfter context request.patience world (Progress.rooted root first) (locations ++ more)
            error := by
  induction bound generalizing peak load locations with
  | zero =>
    have now : load.readLocations.length ≤ most := few turns
    omega
  | succ bound ih =>
    have now : load.readLocations.length ≤ most := few turns
    simp only [drain, drainLocations]
    cases pending : load.pending with
    | nil =>
      simp only [List.length_nil, List.append_nil]
      exact ⟨by omega, isDone_resting turns.sourcesApart idle pending, turns⟩
    | cons location rest =>
      have member : location ∈ load.pending := pending ▸ List.mem_cons_self
      have moved := deliver_turns turns idle member
      simp only
      cases delivered : load.deliver context location (Fetch.location request.patience location
          (world.afterFetches request.patience locations)).1 with
      | error error =>
        rw [delivered] at moved
        exact ⟨by simp only [List.length_singleton]; omega, moved⟩
      | ok next =>
        rw [delivered] at moved
        obtain ⟨rested, more, fetched⟩ := moved
        have after : (Fetch.location request.patience location
            (world.afterFetches request.patience locations)).2 =
            world.afterFetches request.patience (locations ++ [location]) := by
          simp only [World.afterFetches, List.foldl_append, List.foldl_cons, List.foldl_nil]
        obtain ⟨short, ends⟩ :=
          @ih (max peak (load.openRequests request.settings)) next _ fetched rested (by omega)
        simp only [after, List.length_cons]
        simp only [List.append_assoc, List.singleton_append] at ends
        exact ⟨by omega, ends⟩

theorem FailsAfter.ends {later : World} {entry : String} {locations : List (List Char)}
    {error : Error} (opens : Opens request world root first later)
    (selected : first.select request.subToolName = .ok entry)
    (fails : FailsAfter (request.context world) request.patience later (Progress.rooted root first)
      locations error) : Ends request world locations (.error error) := by
  obtain ⟨state, origin, cause, turns, failed, rfl⟩ := fails
  exact .failed opens selected turns (.failure failed)

theorem Turns.reaches {later : World} {entry : String} {locations : List (List Char)}
    {state : Progress} (opens : Opens request world root first later)
    (selected : first.select request.subToolName = .ok entry)
    (turns : Turns (request.context world) request.patience later (Progress.rooted root first)
      locations state) : Reaches request world.place (world.answers request) state := by
  obtain ⟨read, past⟩ := opens.read
  exact ⟨root, first, read, ⟨entry, selected⟩, turns.answered past⟩

/-- A root that is taken in has done some of the tasks, which may have failed. -/
theorem begin_turns {location : List Char} {fetched : Fetched} {later : World}
    (found : request.fetchRoot world = (.ok (location, fetched), later)) :
    match begin request (request.context world) location fetched with
    | .ok (load, entry) => ∃ source, Opens request world location source later ∧
        source.select request.subToolName = .ok entry ∧ Idle load ∧
        Turns (request.context world) request.patience later (Progress.rooted location source) []
          load.resting
    | .error error => Ends request world [] (.error error) := by
  unfold begin
  cases read : Source.read (request.context world).base (request.context world).model fetched with
  | error error => exact .unread found read
  | ok source =>
    have opens : Opens request world location source later := ⟨fetched, found, read⟩
    simp only
    cases selected : source.select request.subToolName with
    | error error => exact .noEntry opens selected
    | ok entry =>
      have taken := @accept_steps (request.context world) (fun _ _ => False) start location source
        ⟨by simp [start], by simp [start]⟩
      simp only
      cases accepted : start.accept (request.context world) location source with
      | ok load =>
        rw [accepted] at taken
        exact ⟨source, opens, selected, taken.1, Turns.start.tasks taken.2⟩
      | error error =>
        rw [accepted] at taken
        obtain ⟨state, origin, cause, steps, failed, same⟩ := taken
        exact FailsAfter.ends opens selected
          ⟨state, origin, cause, Turns.start.tasks steps, failed, same⟩

/-- The loader returns what comes of some order of the tasks, if there are not too many sources. -/
theorem run_ends_of_few (early : request.isOver = false)
    (few : ∀ {state}, Reaches request world.place (world.answers request) state →
      state.load.readLocations.length ≤ sourceBound world) :
    ∃ locations, locations.length ≤ sourceBound world ∧
      Ends request world locations (run request world).result ∧
      (run request world).world =
        (request.fetchRoot world).2.afterFetches request.patience locations := by
  cases found : request.fetchRoot world with
  | mk result later =>
    cases result with
    | error error =>
      refine ⟨[], Nat.zero_le _, ?_⟩
      simp only [run, complete, early, Bool.false_eq_true, if_false, found, Except.map]
      exact ⟨.noRoot found, rfl⟩
    | ok content =>
      obtain ⟨location, fetched⟩ := content
      have ran := run_of_root early found
      have begins := begin_turns found
      cases begun : begin request (request.context world) location fetched with
      | error error =>
        rw [begun] at ran begins
        exact ⟨[], Nat.zero_le _, ran.1 ▸ begins, ran.2⟩
      | ok done =>
        obtain ⟨load, entry⟩ := done
        simp only [begun] at ran begins
        obtain ⟨source, opens, selected, idle, turns⟩ := begins
        have few : ∀ {locations state}, Turns (request.context world) request.patience later
            (Progress.rooted location source) locations state →
            state.load.readLocations.length ≤ sourceBound world :=
          fun turns => few (turns.reaches opens selected)
        have first : 0 < load.readLocations.length := by
          have steps : Steps (request.context world) (fun _ _ => True) _ load.resting :=
            turns.steps fun _ _ => trivial
          have sound := ((Progress.sound_rooted _ _ location source).steps steps).load
          have known : location ∈ load.readLocations :=
            (mem_readLocations_iff sound.apart).mpr (Option.isSome_of_eq_some sound.rooted)
          exact List.length_pos_of_mem known
        obtain ⟨short, ends⟩ := @drain_turns request (request.context world) later location source
          (sourceBound world) few (sourceBound world) (if Location.isUrl location then 1 else 0)
          load [] turns idle (by omega)
        simp only [World.afterFetches, List.foldl_nil, List.nil_append] at short ends
        refine ⟨_, ?_, ?_, ran.2⟩
        · omega
        · rw [ran.1]
          cases drained : (drain request (request.context world) (sourceBound world)
              (if Location.isUrl location then 1 else 0) load later).1 with
          | ok last =>
            rw [drained] at ends
            exact .completed opens selected ends.2 ends.1
          | error error =>
            rw [drained] at ends
            exact FailsAfter.ends opens selected ends

theorem run_ends (rooted : Path.isAbsolute world.cwd = true)
    (unmistaken : Unmistaken request world) (early : request.isOver = false) :
    ∃ locations, locations.length ≤ sourceBound world ∧
      Ends request world locations (run request world).result ∧
      (run request world).world =
        (request.fetchRoot world).2.afterFetches request.patience locations :=
  run_ends_of_few early fun reached => reached.few rooted unmistaken

theorem requests_fetchRoot (request : LoadRequest) (world : World) :
    (request.fetchRoot world).2.requests.length ≤
      world.requests.length + (request.patience.retries + 1) * (Fetch.maxRedirects + 1) := by
  cases rooted : request.rootLocation (request.context world) with
  | error error =>
    simp only [LoadRequest.fetchRoot, rooted]
    exact Nat.le_add_right _ _
  | ok location =>
    simp only [LoadRequest.fetchRoot, rooted]
    cases request.root with
    | text => exact Nat.le_add_right _ _
    | reference => exact Fetch.requests_location request.patience location world

theorem requests_afterFetches (patience : Fetch.Patience) (world : World)
    (locations : List (List Char)) :
    (world.afterFetches patience locations).requests.length ≤
      world.requests.length + locations.length * ((patience.retries + 1) * (Fetch.maxRedirects + 1)) := by
  induction locations generalizing world with
  | nil => simp [World.afterFetches]
  | cons location rest ih =>
    have once := Fetch.requests_location patience location world
    have more := ih (Fetch.location patience location world).2
    rw [List.length_cons, Nat.succ_mul]
    calc
      _ ≤ _ := more
      _ ≤ _ := by omega

end loader

/-! ### All loads end -/

structure Terminates (request : LoadRequest) (world : World) : Prop where
  /-- No order of the tasks goes on for ever. -/
  finite : ∀ states : Nat → Progress,
    Reaches request world.place (world.answers request) (states 0) →
    ∃ n, ¬ Step (request.context world) (world.answers request) (states n) (states (n + 1))
  /-- Some task can go on, unless all is done or something has failed. -/
  live : ∀ {state}, Reaches request world.place (world.answers request) state →
    state.IsDone ∨ state.failures ≠ [] ∨
      ∃ later, Step (request.context world) (world.answers request) state later
  /-- No task waits for a source that waits for a task. -/
  waits : ∀ {state}, Reaches request world.place (world.answers request) state →
    ∀ waiter ∈ state.load.waiters, WaitsForAnswer (request.context world) state waiter
  /-- The loader returns what comes of some order, after no more fetches than there may be sources. -/
  returns : request.isOver = false → ∃ locations, locations.length ≤ sourceBound world ∧
    Ends request world locations (run request world).result ∧
    (run request world).world =
      (request.fetchRoot world).2.afterFetches request.patience locations
  /-- Without time, it does nothing. -/
  late : request.isOver = true →
    (run request world).result = .error (timeUp request) ∧ (run request world).world = world
  /-- It makes a bounded number of web requests, as each fetch does. -/
  requests : (run request world).world.requests.length ≤ world.requests.length +
    (sourceBound world + 1) * ((request.patience.retries + 1) * (Fetch.maxRedirects + 1))

/-- Every load ends in a world of finitely many files and URLs, however its references lead. -/
theorem every_load_ends {request : LoadRequest} {world : World}
    (rooted : Path.isAbsolute world.cwd = true) (unmistaken : Unmistaken request world) :
    Terminates request world := by
  have stopped : request.isOver = true →
      (run request world).result = .error (timeUp request) ∧ (run request world).world = world := by
    intro late
    simp only [run, complete, if_pos late]
    exact ⟨rfl, trivial⟩
  refine ⟨fun states => not_endless rooted unmistaken states, ?live, ?waits,
    run_ends rooted unmistaken, stopped, ?requests⟩
  case live =>
    rintro state ⟨root, first, -, -, steps⟩
    exact exists_step steps fun location => ⟨_, world, .now, rfl⟩
  case waits =>
    rintro state ⟨root, first, -, -, steps⟩ waiter member
    exact waitsForAnswer steps member
  case requests =>
    cases late : request.isOver with
    | true =>
      rw [(stopped late).2]
      exact Nat.le_add_right _ _
    | false =>
      obtain ⟨locations, few, -, same⟩ := run_ends rooted unmistaken late
      have once := requests_fetchRoot request world
      have more := requests_afterFetches request.patience (request.fetchRoot world).2 locations
      have most := Nat.mul_le_mul_right
        ((request.patience.retries + 1) * (Fetch.maxRedirects + 1)) few
      rw [same, Nat.succ_mul]
      omega

set_option maxRecDepth 10000 in
/-- The pages of the diamond refer to one another and to themselves. -/
theorem diamond_ends :
    (run (.of "a.gpt") diamond).result.toOption.map (·.tools.keys) =
        some ["/work/a.gpt:1", "/work/b.gpt:1", "/work/c.gpt:1"] ∧
      Terminates (.of "a.gpt") diamond :=
  ⟨by decide +kernel, every_load_ends (by decide) (unmistaken_of_uncached _ rfl)⟩

end ToolGraph.Load
