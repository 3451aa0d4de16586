import ToolGraph.Proofs.Load.Sound

/-!
What holds at every step of a load, in whatever order its tasks go on. No reference is forgotten: it
has a job, it waits, it has its target, or something has failed.
-/
namespace ToolGraph.Load
open Entries

inductive Fails (context : LoadContext) (answers : Answers) (root : List Char) (load : Load)
    (tool : Tool) (reference : String) : Error → Prop where
  | nowhere {error : Error} (leads : Destination.find context.outlook tool reference = .error error) :
      Fails context answers root load tool reference error
  | unnamed {location : List Char} {subTool : String} {source : Source} {error : Error}
      (leads : Destination.find context.outlook tool reference = .ok (.source location subTool))
      (found : load.source? location = some source) (refused : source.select subTool = .error error) :
      Fails context answers root load tool reference (error.onReference tool.id reference)
  | lost {location : List Char} {subTool : String} {result : Except Error Fetched} {error : Error}
      (leads : Destination.find context.outlook tool reference = .ok (.source location subTool))
      (other : location ≠ root) (answer : answers location result)
      (refused : result.bind (Source.read context.base context.model) = .error error) :
      Fails context answers root load tool reference (error.onReference tool.id reference)

theorem Fails.grow {context : LoadContext} {answers : Answers} {root : List Char}
    {earlier later : Load} {tool : Tool} {reference : String} {error : Error}
    (fails : Fails context answers root earlier tool reference error) (grows : Grows earlier later) :
    Fails context answers root later tool reference error := by
  cases fails with
  | nowhere leads => exact .nowhere leads
  | unnamed leads found refused => exact .unnamed leads (grows.sources found) refused
  | lost leads other answer refused => exact .lost leads other answer refused

def Waits (context : LoadContext) (load : Load) (waiter : Waiter) : Prop :=
  ∃ tool, tool.id = waiter.tool ∧ Refers load waiter.origin tool waiter.reference ∧
    Destination.find context.outlook tool waiter.reference =
      .ok (.source waiter.location waiter.subTool)

theorem Waits.grow {context : LoadContext} {earlier later : Load} {waiter : Waiter}
    (waits : Waits context earlier waiter) (stored : AllStored earlier)
    (grows : Grows earlier later) : Waits context later waiter := by
  obtain ⟨tool, same, refers, leads⟩ := waits
  exact ⟨tool, same, refers.grow stored grows, leads⟩

def Lost (context : LoadContext) (answers : Answers) (root location : List Char) (error : Error) :
    Prop :=
  location ≠ root ∧ ∃ result, answers location result ∧
    result.bind (Source.read context.base context.model) = .error error

namespace Progress

def Handled (state : Progress) (tool : Tool) (reference : String) : Prop :=
  state.failures ≠ [] ∨ (∃ job ∈ state.jobs, job.tool = tool ∧ job.reference = reference) ∨
    (∃ waiter ∈ state.load.waiters, waiter.tool = tool.id ∧ waiter.reference = reference) ∨
      (state.load.target? tool.id reference).isSome

/-- The invariant of the steps of a load whose root is `first`. -/
structure Sound (context : LoadContext) (answers : Answers) (root : List Char) (first : Source)
    (state : Progress) : Prop where
  load : state.load.Sound context answers root first
  opened : ∀ {source}, source ∈ state.opened → ∃ location, state.load.source? location = some source
  jobs : ∀ {job}, job ∈ state.jobs → Refers state.load job.origin job.tool job.reference
  waiters : ∀ {waiter}, waiter ∈ state.load.waiters → Waits context state.load waiter
  lost : ∀ {location error}, (location, error) ∈ state.lost →
    Lost context answers root location error
  failures : ∀ {origin error}, (origin, error) ∈ state.failures →
    ∃ tool reference, Refers state.load origin tool reference ∧
      Fails context answers root state.load tool reference error
  handled : ∀ {location source}, state.load.source? location = some source →
    source ∈ state.opened ∨ ∀ {tool reference}, (tool, reference) ∈ state.load.references source →
      state.Handled tool reference

namespace Sound
variable {context : LoadContext} {answers : Answers} {root : List Char} {first : Source}
  {state later : Progress}

/-- It is enough to look at what is new, and at what becomes of what is done. -/
theorem extend (sound : state.Sound context answers root first)
    (load : later.load.Sound context answers root first) (grows : Grows state.load later.load)
    (opened : ∀ {source}, source ∈ later.opened →
      source ∈ state.opened ∨ ∃ location, later.load.source? location = some source)
    (jobs : ∀ {job}, job ∈ later.jobs →
      job ∈ state.jobs ∨ Refers later.load job.origin job.tool job.reference)
    (waiters : ∀ {waiter}, waiter ∈ later.load.waiters →
      waiter ∈ state.load.waiters ∨ Waits context later.load waiter)
    (lost : ∀ {location error}, (location, error) ∈ later.lost →
      (location, error) ∈ state.lost ∨ Lost context answers root location error)
    (failures : ∀ {origin error}, (origin, error) ∈ later.failures →
      (origin, error) ∈ state.failures ∨ ∃ tool reference,
        Refers later.load origin tool reference ∧
          Fails context answers root later.load tool reference error)
    (failed : state.failures ≠ [] → later.failures ≠ [])
    (sources : ∀ {location source}, later.load.source? location = some source →
      state.load.source? location = some source ∨ source ∈ later.opened)
    (openedDone : ∀ {source}, source ∈ state.opened → source ∈ later.opened ∨
      ∀ {tool reference}, (tool, reference) ∈ state.load.references source →
        later.Handled tool reference)
    (jobsDone : ∀ {job}, job ∈ state.jobs →
      job ∈ later.jobs ∨ later.Handled job.tool job.reference)
    (waitersDone : ∀ {waiter}, waiter ∈ state.load.waiters → waiter ∈ later.load.waiters ∨
      ∀ {tool : Tool}, tool.id = waiter.tool → later.Handled tool waiter.reference) :
    later.Sound context answers root first := by
  have stored : AllStored state.load := sound.load.stored
  have handled : ∀ {tool reference}, state.Handled tool reference →
      later.Handled tool reference := by
    rintro tool reference (some | ⟨job, member, rfl, rfl⟩ | ⟨waiter, member, same, rfl⟩ | known)
    · exact .inl (failed some)
    · exact (jobsDone member).elim (fun kept => .inr (.inl ⟨job, kept, rfl, rfl⟩)) id
    · exact (waitersDone member).elim (fun kept => .inr (.inr (.inl ⟨waiter, kept, same, rfl⟩)))
        (fun done => done same.symm)
    · exact .inr (.inr (.inr (grows.targets known)))
  refine ⟨load, ?_, ?_, ?_, ?_, ?_, ?_⟩
  · intro source member
    rcases opened member with old | new
    · obtain ⟨location, found⟩ := sound.opened old
      exact ⟨location, grows.sources found⟩
    · exact new
  · intro job member
    exact (jobs member).elim (fun old => (sound.jobs old).grow stored grows) id
  · intro waiter member
    exact (waiters member).elim (fun old => (sound.waiters old).grow stored grows) id
  · intro location error member
    exact (lost member).elim sound.lost id
  · intro origin error member
    rcases failures member with old | new
    · obtain ⟨tool, reference, refers, fails⟩ := sound.failures old
      exact ⟨tool, reference, refers.grow stored grows, fails.grow grows⟩
    · exact new
  · intro location source found
    rcases sources found with old | new
    · rcases sound.handled old with waiting | done
      · rcases openedDone waiting with kept | done
        · exact .inl kept
        · refine .inr (fun member => done ?_)
          rwa [references_grow grows (stored old)] at member
      · refine .inr (fun member => handled (done ?_))
        rwa [references_grow grows (stored old)] at member
    · exact .inl new

end Sound

/-! ### The steps one by one -/

section steps
variable {context : LoadContext} {answers : Answers} {root : List Char} {first : Source}
  {state : Progress}

theorem mem_split {α : Type} {list before after : List α} {item other : α}
    (split : list = before ++ item :: after) (member : other ∈ list) :
    other ∈ before ++ after ∨ other = item := by
  subst split
  simp only [List.mem_append, List.mem_cons] at member ⊢
  tauto

theorem mem_of_split {α : Type} {list before after : List α} {item other : α}
    (split : list = before ++ item :: after) (member : other ∈ before ++ after) : other ∈ list := by
  subst split
  simp only [List.mem_append, List.mem_cons] at member ⊢
  tauto

theorem Sound.register (sound : state.Sound context answers root first) {location : List Char}
    {fetched : Fetched} {source : Source}
    (awaited : state.load.sources.get? location = some none)
    (answer : answers location (.ok fetched))
    (read : Source.read context.base context.model fetched = .ok source) :
    (state.register location source).Sound context answers root first := by
  have missing : state.load.source? location = none := by simp [source?, awaited]
  have delivered : (state.register location source).load.source? location = some source := by
    change (state.load.deliverSource location source).source? location = some source
    rw [source?_deliverSource, if_pos rfl]
  refine sound.extend (sound.load.deliverSource awaited answer read)
    (grows_deliverSource source missing) ?opened .inl .inl .inl .inl id ?sources ?openedDone .inl .inl
  case opened =>
    intro other member
    rcases List.mem_append.mp member with old | new
    · exact .inl old
    · obtain rfl := List.mem_singleton.mp new
      exact .inr ⟨location, delivered⟩
  case sources =>
    intro place other found
    change (state.load.deliverSource location source).source? place = some other at found
    rw [source?_deliverSource] at found
    split at found
    next =>
      obtain rfl := Option.some.inj found
      exact .inr (List.mem_append_right _ (List.mem_singleton_self source))
    next => exact .inl found
  case openedDone =>
    intro other member
    exact .inl (List.mem_append_left _ member)

theorem Sound.lose (sound : state.Sound context answers root first) {location : List Char}
    {result : Except Error Fetched} {error : Error}
    (awaited : state.load.sources.get? location = some none) (answer : answers location result)
    (refused : result.bind (Source.read context.base context.model) = .error error) :
    Progress.Sound context answers root first
      { state with lost := state.lost ++ [(location, error)] } := by
  have other := sound.load.ne_root awaited
  refine sound.extend sound.load (Grows.refl _) .inl .inl .inl ?_ .inl id .inl .inl .inl .inl
  intro place cause member
  rcases List.mem_append.mp member with old | new
  · exact .inl old
  · obtain ⟨rfl, rfl⟩ := Prod.mk.inj (List.mem_singleton.mp new)
    exact .inr ⟨other, result, answer, refused⟩

theorem Sound.openSource (sound : state.Sound context answers root first) {source : Source}
    {before after : List Source} (next : state.opened = before ++ source :: after) :
    Progress.Sound context answers root first
      ({ state with opened := before ++ after }.openSource source) := by
  obtain ⟨location, found⟩ := sound.opened (next ▸ List.mem_append_cons_self)
  refine sound.extend sound.load (Grows.refl _) (fun member => .inl (mem_of_split next member))
    ?jobs .inl .inl .inl id .inl ?openedDone (fun member => .inl (List.mem_append_left _ member)) .inl
  case jobs =>
    intro job member
    rcases List.mem_append.mp member with old | new
    · exact .inl old
    · obtain ⟨⟨tool, reference⟩, refers, rfl⟩ := List.mem_map.mp new
      exact .inr ⟨location, source, found, rfl, refers⟩
  case openedDone =>
    intro other member
    rcases mem_split next member with kept | rfl
    · exact .inl kept
    · refine .inr (fun {tool reference} refers =>
        .inr (.inl ⟨⟨other.location, tool, reference⟩, ?_, rfl, rfl⟩))
      exact List.mem_append_right _ (List.mem_map_of_mem refers)

theorem mem_failures_fail {state : Progress} {origin place : List Char} {error cause : Error} :
    (place, cause) ∈ (state.fail origin error).failures ↔
      (place, cause) ∈ state.failures ∨ place = origin ∧ cause = error := by
  simp [Progress.fail]

theorem failures_fail_ne_nil (state : Progress) (origin : List Char) (error : Error) :
    (state.fail origin error).failures ≠ [] := by
  simp [Progress.fail]

theorem failures_of_fail {origin : List Char} {error : Error}
    (known : ∃ tool reference, Refers state.load origin tool reference ∧
      Fails context answers root state.load tool reference error)
    {place : List Char} {cause : Error} (member : (place, cause) ∈ (state.fail origin error).failures) :
    (place, cause) ∈ state.failures ∨ ∃ tool reference,
      Refers (state.fail origin error).load place tool reference ∧
        Fails context answers root (state.fail origin error).load tool reference cause := by
  rcases mem_failures_fail.mp member with old | ⟨rfl, rfl⟩
  · exact .inl old
  · exact .inr known

theorem Sound.finishJob (sound : state.Sound context answers root first) {job : Job}
    {before after : List Job} {later : Progress} (next : state.jobs = before ++ job :: after)
    (load : later.load.Sound context answers root first) (grows : Grows state.load later.load)
    (sources : ∀ {location}, later.load.source? location = state.load.source? location)
    (opened : later.opened = state.opened) (jobs : later.jobs = before ++ after)
    (lost : later.lost = state.lost)
    (kept : ∀ {waiter}, waiter ∈ state.load.waiters → waiter ∈ later.load.waiters)
    (waiters : ∀ {waiter}, waiter ∈ later.load.waiters →
      waiter ∈ state.load.waiters ∨ Waits context later.load waiter)
    (failures : ∀ {origin error}, (origin, error) ∈ later.failures →
      (origin, error) ∈ state.failures ∨ ∃ tool reference,
        Refers later.load origin tool reference ∧
          Fails context answers root later.load tool reference error)
    (failed : state.failures ≠ [] → later.failures ≠ [])
    (done : later.Handled job.tool job.reference) : later.Sound context answers root first := by
  refine sound.extend load grows ?_ ?_ waiters ?_ failures failed ?_ ?_ ?_ (fun member => .inl (kept member))
  · intro source member
    exact .inl (opened ▸ member)
  · intro other member
    exact .inl (mem_of_split next (jobs ▸ member))
  · intro location error member
    exact .inl (lost ▸ member)
  · intro location source found
    exact .inl (sources ▸ found)
  · intro source member
    exact .inl (opened ▸ member)
  · intro other member
    rcases mem_split next member with kept | rfl
    · exact .inl (jobs ▸ kept)
    · exact .inr done

/-- A job leaves a reference that has its target, a failure, or a reference that waits. -/
theorem Sound.perform (sound : state.Sound context answers root first) {job : Job}
    {before after : List Job} (next : state.jobs = before ++ job :: after) :
    ({ state with jobs := before ++ after }.perform context job).Sound context answers root first := by
  have refers := sound.jobs (next ▸ List.mem_append_cons_self)
  have stored : AllStored state.load := sound.load.stored
  rcases follow_cases context job.origin job.tool job.reference state.load with
    ⟨error, leads, moved⟩ | ⟨own, leads, moved⟩ | ⟨target, leads, moved⟩ |
    ⟨location, subTool, source, own, leads, found, selected, moved⟩ |
    ⟨location, subTool, source, error, leads, found, refused, moved⟩ |
    ⟨location, subTool, leads, missing, moved⟩
  all_goals simp only [Progress.perform, moved]
  case inl =>
    refine sound.finishJob next sound.load (Grows.refl _) rfl rfl rfl rfl id .inl ?_ ?_ ?_
    · exact failures_of_fail ⟨_, _, refers, .nowhere leads⟩
    · exact fun _ => failures_fail_ne_nil _ _ _
    · exact .inl (failures_fail_ne_nil _ _ _)
  case inr.inl =>
    refine sound.finishJob next (sound.load.link refers (.sibling leads)) (grows_link _ _ _ _)
      rfl rfl rfl rfl id .inl .inl id ?_
    exact .inr (.inr (.inr (by simp [target?_link])))
  case inr.inr.inl =>
    have introduced := sound.load.introduce refers leads
    have grows := grows_introduce state.load target
    have known : (state.load.introduce target).tools.has target.id :=
      has_iff.mpr (mem_keys_putNew.mpr (.inl rfl))
    refine sound.finishJob next
      (introduced.link (refers.grow stored grows) (.builtin leads known))
      (grows.trans (grows_link _ _ _ _)) rfl rfl rfl rfl id .inl .inl id ?_
    exact .inr (.inr (.inr (by simp [target?_link])))
  case inr.inr.inr.inl =>
    have grows := grows_refer state.load location job.tool job.reference
    refine sound.finishJob next
      ((sound.load.refer location job.tool job.reference).link (refers.grow stored grows)
        (.source leads found selected))
      (grows.trans (grows_link _ _ _ _)) rfl rfl rfl rfl id .inl .inl id ?_
    exact .inr (.inr (.inr (by simp [target?_link])))
  case inr.inr.inr.inr.inl =>
    have grows := grows_refer state.load location job.tool job.reference
    refine sound.finishJob next (sound.load.refer location job.tool job.reference) grows
      rfl rfl rfl rfl id .inl ?_ ?_ ?_
    · refine failures_of_fail ?_
      exact ⟨_, _, refers.grow stored grows, .unnamed leads found refused⟩
    · exact fun _ => failures_fail_ne_nil _ _ _
    · exact .inl (failures_fail_ne_nil _ _ _)
  case inr.inr.inr.inr.inr =>
    have grows := grows_refer state.load location job.tool job.reference
    have awaits := grows_await (state.load.refer location job.tool job.reference)
      ⟨location, subTool, job.origin, job.tool.id, job.reference⟩
    refine sound.finishJob next
      ((sound.load.refer location job.tool job.reference).await (refers.grow stored grows) leads)
      (grows.trans awaits) (source?_await _ _ _) rfl rfl rfl (List.mem_append_left _) ?_ .inl id ?_
    · intro waiter member
      rcases List.mem_append.mp member with old | new
      · exact .inl old
      · obtain rfl := List.mem_singleton.mp new
        exact .inr ⟨job.tool, rfl, refers.grow stored (grows.trans awaits), leads⟩
    · exact .inr (.inr (.inl ⟨_, List.mem_append_right _ (List.mem_singleton_self _), rfl, rfl⟩))

theorem Sound.finishWaiter (sound : state.Sound context answers root first) {waiter : Waiter}
    {before after : List Waiter} {later : Progress}
    (next : state.load.waiters = before ++ waiter :: after)
    (load : later.load.Sound context answers root first) (grows : Grows state.load later.load)
    (sources : ∀ {location}, later.load.source? location = state.load.source? location)
    (opened : later.opened = state.opened) (jobs : later.jobs = state.jobs)
    (lost : later.lost = state.lost) (waiters : later.load.waiters = before ++ after)
    (failures : ∀ {origin error}, (origin, error) ∈ later.failures →
      (origin, error) ∈ state.failures ∨ ∃ tool reference,
        Refers later.load origin tool reference ∧
          Fails context answers root later.load tool reference error)
    (failed : state.failures ≠ [] → later.failures ≠ [])
    (done : ∀ {tool : Tool}, tool.id = waiter.tool → later.Handled tool waiter.reference) :
    later.Sound context answers root first := by
  refine sound.extend load grows ?_ ?_ ?_ ?_ failures failed ?_ ?_ ?_ ?_
  · exact fun member => .inl (opened ▸ member)
  · exact fun member => .inl (jobs ▸ member)
  · exact fun member => .inl (mem_of_split next (waiters ▸ member))
  · exact fun member => .inl (lost ▸ member)
  · exact fun found => .inl (sources ▸ found)
  · exact fun member => .inl (opened ▸ member)
  · exact fun member => .inl (jobs ▸ member)
  · intro other member
    rcases mem_split next member with kept | rfl
    · exact .inl (waiters ▸ kept)
    · exact .inr done

theorem Sound.answer (sound : state.Sound context answers root first) {waiter : Waiter}
    {source : Source} {before after : List Waiter}
    (next : state.load.waiters = before ++ waiter :: after)
    (arrived : state.load.source? waiter.location = some source) :
    ((state.setWaiters (before ++ after)).answer source waiter).Sound context answers root first := by
  obtain ⟨tool, same, refers, leads⟩ := sound.waiters (next ▸ List.mem_append_cons_self)
  have stored : AllStored state.load := sound.load.stored
  have grows := grows_waiters state.load (before ++ after)
  have kept := sound.load.waiters (before ++ after)
  cases selected : source.select waiter.subTool with
  | ok own =>
    simp only [Progress.answer, linkSelected, selected]
    have linked := kept.link (refers.grow stored grows) (.source leads arrived selected)
    rw [same] at linked
    refine sound.finishWaiter next linked (grows.trans (grows_link _ _ _ _)) rfl rfl rfl rfl rfl .inl
      id ?_
    intro other sameOther
    exact .inr (.inr (.inr (by simp [target?_link, sameOther])))
  | error error =>
    simp only [Progress.answer, linkSelected, selected]
    refine sound.finishWaiter next kept grows rfl rfl rfl rfl rfl ?_ ?_ ?_
    · rw [← same]
      refine failures_of_fail ?_
      exact ⟨_, _, refers.grow stored grows, .unnamed leads arrived selected⟩
    · exact fun _ => failures_fail_ne_nil _ _ _
    · exact fun _ => .inl (failures_fail_ne_nil _ _ _)

theorem Sound.giveUp (sound : state.Sound context answers root first) {waiter : Waiter}
    {error : Error} {before after : List Waiter}
    (next : state.load.waiters = before ++ waiter :: after)
    (lost : (waiter.location, error) ∈ state.lost) :
    ((state.setWaiters (before ++ after)).fail waiter.origin
      (error.onReference waiter.tool waiter.reference)).Sound context answers root first := by
  obtain ⟨tool, same, refers, leads⟩ := sound.waiters (next ▸ List.mem_append_cons_self)
  obtain ⟨other, result, answer, refused⟩ := sound.lost lost
  have stored : AllStored state.load := sound.load.stored
  have grows := grows_waiters state.load (before ++ after)
  refine sound.finishWaiter next (sound.load.waiters (before ++ after)) grows rfl rfl rfl rfl rfl
    ?_ ?_ ?_
  · rw [← same]
    exact failures_of_fail ⟨_, _, refers.grow stored grows, .lost leads other answer refused⟩
  · exact fun _ => failures_fail_ne_nil _ _ _
  · exact fun _ => .inl (failures_fail_ne_nil _ _ _)

theorem Sound.step (sound : state.Sound context answers root first) {later : Progress}
    (step : Step context answers state later) : later.Sound context answers root first := by
  cases step with
  | arrive awaited fresh answer read => exact sound.register awaited answer read
  | lose awaited fresh answer refused => exact sound.lose awaited answer refused
  | openSource next => exact sound.openSource next
  | perform next => exact sound.perform next
  | resume next arrived => exact sound.answer next (source?_eq_some_iff.mpr arrived)
  | giveUp next lost => exact sound.giveUp next lost
  | cancelJob next failed =>
    exact sound.finishJob next sound.load (Grows.refl _) rfl rfl rfl rfl id .inl .inl id (.inl failed)
  | cancelWaiter next failed =>
    exact sound.finishWaiter next (sound.load.waiters _) (grows_waiters _ _) rfl rfl rfl rfl rfl .inl
      id (fun _ => .inl failed)

end steps

theorem sound_rooted (context : LoadContext) (answers : Answers) (root : List Char)
    (first : Source) : (rooted root first).Sound context answers root first := by
  refine ⟨Load.sound_rooted context answers root first, ?_, ?_, ?_, ?_, ?_, ?_⟩
  · intro source member
    obtain rfl := List.mem_singleton.mp member
    exact ⟨root, (Load.sound_rooted context answers root source).rooted⟩
  · exact fun member => by simp [rooted, register] at member
  · exact fun member => by simp [rooted, register, start, addTools] at member
  · exact fun member => by simp [rooted, register] at member
  · exact fun member => by simp [rooted, register] at member
  · intro location source found
    change (start.deliverSource root first).source? location = some source at found
    rw [source?_deliverSource] at found
    split at found
    next =>
      obtain rfl := Option.some.inj found
      exact .inl (List.mem_singleton_self first)
    next => simp [source?, start] at found

theorem Sound.steps {context : LoadContext} {answers : Answers} {root : List Char} {first : Source}
    {state later : Progress} (sound : state.Sound context answers root first)
    (steps : Steps context answers state later) : later.Sound context answers root first := by
  induction steps with
  | refl => exact sound
  | tail _ step ih => exact ih.step step

theorem Sound.linked {context : LoadContext} {answers : Answers} {root : List Char} {first : Source}
    {state : Progress} (sound : state.Sound context answers root first) (done : state.IsDone)
    {location : List Char} {source : Source} (found : state.load.source? location = some source)
    {tool : Tool} {reference : String} (refers : (tool, reference) ∈ state.load.references source) :
    ∃ target, state.load.target? tool.id reference = some target := by
  rcases sound.handled found with waiting | handled
  · simp [done.opened] at waiting
  · rcases handled refers with failed | ⟨job, member, -⟩ | ⟨waiter, member, -⟩ | known
    · exact absurd done.failures failed
    · simp [done.jobs] at member
    · simp [done.waiters] at member
    · exact Option.isSome_iff_exists.mp known

end Progress
end ToolGraph.Load
