import ToolGraph.Proofs.Load.Linked

/-!
What becomes of the tools of a source. They are taken in with the source, each unless its id is taken
already, and what is taken in stays. Ids clash only where an artifact has a part in it, or where two
sources were found at the same place.
-/
namespace ToolGraph

/-- A tool is another one in every field but the table of its references. -/
def Tool.IsButMapping (kept tool : Tool) : Prop := kept = { tool with toolMapping := kept.toolMapping }

theorem Tool.IsButMapping.instructions {kept tool : Tool} (same : kept.IsButMapping tool) :
    kept.instructions = tool.instructions := by
  unfold IsButMapping at same
  rw [same]

namespace Load
open Entries

/-! ### When a source is taken in -/

inductive TakenIn (context : LoadContext) (answers : Answers) (root : List Char) (first : Source)
    (final : Progress) : List Char → Source → Load → Prop where
  | root (rest : Steps context answers (Progress.rooted root first) final) :
      TakenIn context answers root first final root first start
  | arrival {state : Progress} {location : List Char} {source : Source}
      (steps : Steps context answers (Progress.rooted root first) state)
      (awaited : state.load.sources.get? location = some none)
      (rest : Steps context answers (state.register location source) final) :
      TakenIn context answers root first final location source state.load

section taken
variable {context : LoadContext} {answers : Answers} {root : List Char} {first : Source}
  {state later final : Progress}

theorem source?_follow (context : LoadContext) (origin : List Char) (tool : Tool)
    (reference : String) (load : Load) (location : List Char) :
    (follow context origin tool reference load).1.source? location = load.source? location := by
  rcases follow_cases context origin tool reference load with
    ⟨error, -, moved⟩ | ⟨id, -, moved⟩ | ⟨target, -, moved⟩ |
    ⟨place, subTool, source, id, -, -, -, moved⟩ |
    ⟨place, subTool, source, error, -, -, -, moved⟩ | ⟨place, subTool, -, -, moved⟩
  all_goals rw [moved]
  case inr.inr.inr.inr.inr => exact source?_await _ _ location
  all_goals rfl

theorem source?_answer (state : Progress) (source : Source) (waiter : Waiter)
    (location : List Char) :
    (state.answer source waiter).load.source? location = state.load.source? location := by
  unfold Progress.answer linkSelected
  cases source.select waiter.subTool <;> rfl

theorem arrives_of_step (step : Step context answers state later) {location : List Char}
    {source : Source} (found : later.load.source? location = some source) :
    state.load.source? location = some source ∨
      state.load.sources.get? location = some none ∧ later = state.register location source := by
  cases step with
  | @arrive place _ other awaited =>
    change (state.load.deliverSource place other).source? location = some source at found
    rw [source?_deliverSource] at found
    split at found
    next same =>
      obtain rfl := same
      obtain rfl := Option.some.inj found
      exact .inr ⟨awaited, rfl⟩
    next => exact .inl found
  | perform =>
    rw [load_perform, source?_follow] at found
    exact .inl found
  | resume =>
    rw [source?_answer] at found
    exact .inl found
  | lose | openSource | giveUp | cancelJob | cancelWaiter => exact .inl found

theorem TakenIn.step {location : List Char} {source : Source} {before : Load}
    (taken : TakenIn context answers root first state location source before)
    (step : Step context answers state later) :
    TakenIn context answers root first later location source before := by
  cases taken with
  | root rest => exact .root (rest.tail step)
  | arrival steps awaited rest => exact .arrival steps awaited (rest.tail step)

theorem exists_takenIn (steps : Steps context answers (Progress.rooted root first) final)
    {location : List Char} {source : Source} (found : final.load.source? location = some source) :
    ∃ before, TakenIn context answers root first final location source before := by
  induction steps with
  | refl =>
    change (start.deliverSource root first).source? location = some source at found
    rw [source?_deliverSource] at found
    split at found
    next same =>
      obtain rfl := same
      obtain rfl := Option.some.inj found
      exact ⟨start, .root .refl⟩
    next => simp [source?, start] at found
  | @tail state later steps step ih =>
    rcases arrives_of_step step found with old | ⟨awaited, rfl⟩
    · obtain ⟨before, taken⟩ := ih old
      exact ⟨before, taken.step step⟩
    · exact ⟨state.load, .arrival steps awaited .refl⟩

theorem TakenIn.grows {location : List Char} {source : Source} {before : Load}
    (taken : TakenIn context answers root first final location source before) :
    Grows (before.deliverSource location source) final.load := by
  cases taken with
  | root rest => exact Steps.grows rest
  | arrival _ _ rest => exact Steps.grows rest

theorem TakenIn.get?_tools {location : List Char} {source : Source} {before : Load}
    (taken : TakenIn context answers root first final location source before)
    (distinct : (source.tools.map Tool.id).Nodup) {tool : Tool} (member : tool ∈ source.tools) :
    final.load.tools.get? tool.id = some ((before.tools.get? tool.id).getD tool) := by
  apply taken.grows.tools
  exact get?_deliverSource before location distinct member

end taken

/-! ### Who takes an id -/

inductive Takes (context : LoadContext) (before : Load) (source : Source) (winner : Tool) : Prop where
  /-- One of the two sources is an artifact. -/
  | artifact {location : List Char} {other : Source} (found : before.source? location = some other)
      (member : winner ∈ other.tools) (clash : other.linked = true ∨ source.linked = true) :
      Takes context before source winner
  /-- Both sources were found at the same place. -/
  | together {location : List Char} {other : Source} (found : before.source? location = some other)
      (member : winner ∈ other.tools) (place : other.location = source.location) :
      Takes context before source winner
  /-- The source is an artifact that defines the id of a built-in tool. -/
  | builtin {origin : List Char} {user : Tool} {reference : String}
      (refers : Refers before origin user reference)
      (leads : Destination.find context.outlook user reference = .ok (.builtin winner))
      (clash : source.linked = true) : Takes context before source winner

section takers
variable {context : LoadContext} {answers : Answers} {root : List Char} {first : Source}
  {final : Progress}

theorem TakenIn.takes (whole : final.load.Whole context answers root first) {location : List Char}
    {source : Source} {before : Load}
    (taken : TakenIn context answers root first final location source before)
    (found : final.load.source? location = some source) {tool winner : Tool}
    (member : tool ∈ source.tools) (known : before.tools.get? tool.id = some winner) :
    Takes context before source winner := by
  have grows := taken.grows
  cases taken with
  | root => simp [start] at known
  | @arrival state _ _ steps awaited rest =>
    have sound := (Progress.sound_rooted context answers root first).steps steps
    have same : tool.id = winner.id := (sound.load.tool_id known).symm
    have missing : state.load.source? location = none := by simp [source?, awaited]
    rcases sound.load.known known with
      ⟨place, other, found', member'⟩ | ⟨origin, user, reference, refers, leads⟩
    · by_cases live : other.linked = false ∧ source.linked = false
      · have kept := grows.sources ((grows_deliverSource source missing).sources found')
        exact .together found' member' (Source.location_eq_of_id (whole.wellFormed kept)
          (whole.wellFormed found) live.1 live.2 member' member same.symm)
      · apply Takes.artifact found' member'
        simpa only [not_and_or, Bool.not_eq_false] using live
    · apply Takes.builtin refers leads
      by_contra live
      obtain ⟨line, named⟩ := ((whole.wellFormed found).lined (Bool.not_eq_true _ ▸ live)).ids tool member
      have plain := colon_not_mem_id (builtin_of_find leads)
      rw [← same, named] at plain
      exact plain (Block.colon_mem_idAt _ _)

end takers

/-- No id of a parsed tool is lost, and no tool that is taken in is replaced: in a load that is done,
every tool of every source is there under its id, unless the id was taken before its source was. Then
the tool that had it first is there. Nothing but the table of its references is changed. -/
theorem registered_first {request : LoadRequest} {place : Canonical.Place} {answers : Answers}
    {load : Load} {entry : String} (done : Completes request place answers load entry) :
    ∃ root first final, RootRead request place answers root first ∧ final.load = load ∧
      ∀ {location source}, load.source? location = some source →
        ∃ before, TakenIn (request.contextAt place) answers root first final location source before ∧
          ∀ tool ∈ source.tools, ∃ kept,
            (load.program request.name entry).tools.get? tool.id = some kept ∧
            kept.IsButMapping ((before.tools.get? tool.id).getD tool) ∧
            ∀ winner, before.tools.get? tool.id = some winner →
              Takes (request.contextAt place) before source winner := by
  obtain ⟨-, root, first, final, read, -, steps, finished, rfl⟩ := done
  have whole := whole_of_steps read steps finished
  refine ⟨root, first, final, read, rfl, ?_⟩
  intro location source found
  obtain ⟨before, taken⟩ := exists_takenIn steps found
  refine ⟨before, taken, ?_⟩
  intro tool member
  have winner := taken.get?_tools (whole.wellFormed found).distinct member
  refine ⟨_, ?_, finished_eq final.load ((before.tools.get? tool.id).getD tool), ?_⟩
  · simp only [program, get?_mapValues, winner, Option.map_some]
  · exact fun winner known => taken.takes whole found member known

/-- A file that refers to a built-in tool and to an artifact. The artifact was made of an older version
of the file, and has a tool of its own under the id of the built-in one. -/
def stale : World :=
  .ofFiles "/work" [("/work/a.gpt", "tools: sys.read, b.json\n\nGo on."),
    ("/work/b.json", "\x7b\"kind\": \"toolscribe.assembled/v1\", \"name\": \"b\", \"entry\": 0, " ++
      "\"tools\": [\x7b\"id\": \"/work/a.gpt:1\", \"instructions\": \"Stop.\"\x7d, " ++
      "\x7b\"id\": \"sys.read\", \"name\": \"mine\"\x7d]\x7d")]

/-- What a load of two sources holds: the tools of the second one by id, with their names and
instructions, and what the program has under these ids. -/
def namesOf (done : Load × String) (location : List Char) :
    Option (List (String × String × String)) × List (String × String × String) :=
  let shape := fun (tool : Tool) => (tool.id, tool.name, tool.instructions)
  ((done.1.source? location).map (·.tools.map shape),
    (done.1.program "a.gpt" done.2).tools.values.map shape)

set_option maxRecDepth 10000 in
theorem stale_run : ∃ load entry source, (complete (.of "a.gpt") stale).1 = .ok (load, entry) ∧
    load.source? "/work/b.json".toList = some source ∧
    namesOf (load, entry) "/work/b.json".toList =
      (some [("/work/a.gpt:1", "", "Stop."), ("sys.read", "mine", "")],
        [("/work/a.gpt:1", "", "Go on."), ("sys.read", "sys.read", "#!sys.read")]) := by
  have names : (complete (.of "a.gpt") stale).1.toOption.map (namesOf · "/work/b.json".toList) =
      some (some [("/work/a.gpt:1", "", "Stop."), ("sys.read", "mine", "")],
        [("/work/a.gpt:1", "", "Go on."), ("sys.read", "sys.read", "#!sys.read")]) := by
    decide +kernel
  cases completed : (complete (.of "a.gpt") stale).1 with
  | error error => simp [completed, Except.toOption] at names
  | ok done =>
    rw [completed] at names
    have names := Option.some.inj names
    obtain ⟨source, found, -⟩ := Option.map_eq_some_iff.mp (congrArg Prod.fst names)
    exact ⟨done.1, done.2, source, rfl, found, names⟩

/-- The artifact's tool `sys.read` is lost. -/
theorem stale_loses : ¬ ∀ (request : LoadRequest) (world : World) (load : Load) (entry : String)
    (location : List Char) (source : Source) (tool : Tool),
    (complete request world).1 = .ok (load, entry) → load.source? location = some source →
      tool ∈ source.tools → ∃ kept,
        (load.program request.name entry).tools.get? tool.id = some kept ∧
          kept.IsButMapping tool := by
  intro keeps
  obtain ⟨load, entry, source, completed, found, names⟩ := stale_run
  obtain ⟨own, stored⟩ := Prod.mk.inj names
  rw [found, Option.map_some, Option.some.injEq] at own
  obtain ⟨tool, member, shape⟩ : ∃ tool ∈ source.tools,
      (tool.id, tool.name, tool.instructions) = ("sys.read", "mine", "") :=
    List.mem_map.mp (own ▸ by decide)
  obtain ⟨kept, known, same⟩ := keeps _ _ load entry _ source tool completed found member
  have listed : (kept.id, kept.name, kept.instructions) ∈
      [("/work/a.gpt:1", "", "Go on."), ("sys.read", "sys.read", "#!sys.read")] :=
    stored ▸ List.mem_map_of_mem (List.mem_map_of_mem (mem_of_get? known))
  rw [show kept = _ from same, shape] at listed
  revert listed
  decide

/-- The older version of the file is left out as well: the file itself came first. -/
theorem stale_registered_first : ∃ load entry root first final source before tool winner,
    (complete (.of "a.gpt") stale).1 = .ok (load, entry) ∧ final.load = load ∧
      load.source? "/work/b.json".toList = some source ∧
      TakenIn (LoadRequest.context (.of "a.gpt") stale) (stale.answers (.of "a.gpt")) root first final
        "/work/b.json".toList source before ∧
      tool ∈ source.tools ∧ tool.instructions = "Stop." ∧
      before.tools.get? tool.id = some winner ∧ winner.instructions ≠ tool.instructions ∧
      Takes (LoadRequest.context (.of "a.gpt") stale) before source winner := by
  obtain ⟨load, entry, source, completed, found, names⟩ := stale_run
  obtain ⟨own, stored⟩ := Prod.mk.inj names
  rw [found, Option.map_some, Option.some.injEq] at own
  obtain ⟨tool, member, shape⟩ : ∃ tool ∈ source.tools,
      (tool.id, tool.name, tool.instructions) = ("/work/a.gpt:1", "", "Stop.") :=
    List.mem_map.mp (own ▸ by decide)
  obtain ⟨root, first, final, -, same, registered⟩ :=
    registered_first (completes_of_complete completed)
  obtain ⟨before, taken, keeps⟩ := registered found
  obtain ⟨kept, known, unchanged, takes⟩ := keeps tool member
  have listed : (kept.id, kept.name, kept.instructions) ∈
      [("/work/a.gpt:1", "", "Go on."), ("sys.read", "sys.read", "#!sys.read")] :=
    stored ▸ List.mem_map_of_mem (List.mem_map_of_mem (mem_of_get? known))
  have differs : kept.instructions ≠ tool.instructions := by
    intro stop
    rw [stop, (Prod.mk.inj (Prod.mk.inj shape).2).2] at listed
    simp at listed
  cases earlier : before.tools.get? tool.id with
  | none =>
    rw [earlier, Option.getD_none] at unchanged
    exact absurd unchanged.instructions differs
  | some winner =>
    rw [earlier, Option.getD_some] at unchanged
    have same' := unchanged.instructions
    exact ⟨load, entry, root, first, final, source, before, tool, winner, completed, same, found, taken,
      member, (Prod.mk.inj (Prod.mk.inj shape).2).2, earlier, same' ▸ differs, takes winner earlier⟩

end Load
end ToolGraph
