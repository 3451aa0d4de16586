import ToolGraph.Proofs.Load.Sequential
import ToolGraph.Proofs.Source

/-!
Programs that a load returns. Whatever the locations answer and in whatever order the tasks go on, the
program is closed, and every reference of a tool that is not taken from an artifact is mapped.
-/
namespace ToolGraph.Load
open Entries

/-! ### Loads that are done -/

/-- What is known of a load that is done. -/
structure Whole (context : LoadContext) (answers : Answers) (root : List Char) (first : Source)
    (load : Load) : Prop where
  sound : load.Sound context answers root first
  wellFormed : ∀ {location source}, load.source? location = some source → source.WellFormed
  linked : ∀ {location source}, load.source? location = some source →
    ∀ {tool reference}, (tool, reference) ∈ load.references source →
      ∃ target, load.target? tool.id reference = some target

theorem exists_read {request : LoadRequest} {place : Canonical.Place} {answers : Answers}
    {root : List Char} {first : Source} {load : Load}
    (read : RootRead request place answers root first)
    (sound : load.Sound (request.contextAt place) answers root first) {location : List Char}
    {source : Source} (found : load.source? location = some source) :
    ∃ fetched, Source.read (request.contextAt place).base (request.contextAt place).model fetched =
      .ok source := by
  by_cases same : location = root
  · subst same
    obtain rfl := Option.some.inj (sound.rooted.symm.trans found)
    obtain ⟨fetched, -, read⟩ := read
    exact ⟨fetched, read⟩
  · obtain ⟨fetched, -, read⟩ := sound.read found same
    exact ⟨fetched, read⟩

theorem whole_of_steps {request : LoadRequest} {place : Canonical.Place} {answers : Answers}
    {root : List Char} {first : Source} {state : Progress}
    (read : RootRead request place answers root first)
    (steps : Steps (request.contextAt place) answers (Progress.rooted root first) state)
    (finished : state.IsDone) : state.load.Whole (request.contextAt place) answers root first := by
  have sound := (Progress.sound_rooted _ _ root first).steps steps
  refine ⟨sound.load, ?_, sound.linked finished⟩
  intro location source found
  obtain ⟨fetched, read⟩ := exists_read read sound.load found
  exact (Source.wellFormed_of_read read).2

theorem Completes.whole {request : LoadRequest} {place : Canonical.Place} {answers : Answers}
    {load : Load} {entry : String} (done : Completes request place answers load entry) :
    ∃ root first, RootRead request place answers root first ∧
      first.select request.subToolName = .ok entry ∧
      load.Whole (request.contextAt place) answers root first := by
  obtain ⟨-, root, first, state, read, selected, steps, finished, rfl⟩ := done
  exact ⟨root, first, read, selected, whole_of_steps read steps finished⟩

/-! ### Targets -/

section targets
variable {context : LoadContext} {answers : Answers} {root : List Char} {first : Source} {load : Load}

theorem targets_builtin {name : String} {tool : Tool} (found : Builtin.find? name = some tool) :
    tool.targets = [] ∧ tool.tools = [] ∧ tool.toolMapping = [] := by
  obtain ⟨builtin, -, rfl⟩ := Option.map_eq_some_iff.mp found
  exact ⟨rfl, rfl, rfl⟩

theorem id_builtin {name : String} {tool : Tool} (found : Builtin.find? name = some tool) :
    tool.id = name := by
  obtain ⟨builtin, known, rfl⟩ := Option.map_eq_some_iff.mp found
  have named : builtin.name = name := by simpa using List.find?_some known
  exact named

theorem builtin_unique {one two : String} {tool other : Tool}
    (found : Builtin.find? one = some tool) (found' : Builtin.find? two = some other)
    (same : tool.id = other.id) : tool = other := by
  rw [id_builtin found, id_builtin found'] at same
  subst same
  exact Option.some.inj (found.symm.trans found')

theorem builtin_of_find {outlook : Outlook} {tool target : Tool} {reference : String}
    (leads : Destination.find outlook tool reference = .ok (.builtin target)) :
    ∃ name, Builtin.find? name = some target := by
  unfold Destination.find at leads
  simp only at leads
  split at leads
  next => simp at leads
  next =>
    split at leads
    next => simp at leads
    next =>
      split at leads
      next =>
        split at leads
        next found =>
          obtain rfl : _ = target := by simpa using leads
          exact ⟨_, found⟩
        next => simp at leads
      next => split at leads <;> simp at leads

theorem sibling_of_find {outlook : Outlook} {tool : Tool} {reference id : String}
    (leads : Destination.find outlook tool reference = .ok (.sibling id)) : id ∈ tool.targets := by
  have named : ∀ name, tool.localTools.get? name = some id → id ∈ tool.targets :=
    fun name found => Tool.mem_targets.mpr (.inr ⟨name, mem_of_get? found⟩)
  unfold Destination.find at leads
  simp only at leads
  split at leads
  next => simp at leads
  next =>
    split at leads
    next own found =>
      obtain rfl : own = id := by simpa using leads
      unfold Destination.sibling? at found
      split at found
      next known => exact named _ (known.trans found)
      next =>
        split at found
        next => exact named _ found
        next => simp at found
    next =>
      split at leads
      next => split at leads <;> simp at leads
      next => split at leads <;> simp at leads

theorem mem_tools_of_select {source : Source} (wellFormed : source.WellFormed) {name id : String}
    (selected : source.select name = .ok id) : id ∈ source.tools.map Tool.id := by
  have member : source.first ∈ source.tools := List.mem_cons_self
  unfold Source.select at selected
  split at selected
  next => exact Except.ok.inj selected ▸ List.mem_map_of_mem member
  next =>
    split at selected
    next own found =>
      obtain rfl := Except.ok.inj selected
      exact wellFormed.enclosed source.first member own
        (Tool.mem_targets.mpr (.inr ⟨_, mem_of_get? found⟩))
    next => simp at selected

theorem mem_keys_of_source {location : List Char} {source : Source} {id : String}
    (stored : AllStored load) (found : load.source? location = some source)
    (member : id ∈ source.tools.map Tool.id) : id ∈ load.tools.keys := by
  obtain ⟨tool, own, rfl⟩ := List.mem_map.mp member
  exact stored found tool own

theorem Whole.targets_known (whole : load.Whole context answers root first) {id target : String}
    {tool : Tool} (found : load.tools.get? id = some tool) (member : target ∈ tool.targets) :
    target ∈ load.tools.keys := by
  rcases whole.sound.known found with ⟨location, source, at_, own⟩ | ⟨_, _, _, -, leads⟩
  · exact mem_keys_of_source whole.sound.stored at_
      ((whole.wellFormed at_).enclosed tool own target member)
  · obtain ⟨name, found⟩ := builtin_of_find leads
    simp [(targets_builtin found).1] at member

theorem Whole.target_known (whole : load.Whole context answers root first)
    {id reference target : String} (mapped : load.target? id reference = some target) :
    target ∈ load.tools.keys := by
  obtain ⟨origin, tool, -, refers, resolves⟩ := whole.sound.mapped mapped
  cases resolves with
  | sibling leads =>
    obtain ⟨⟨id, found⟩, -⟩ := refers.tool
    exact whole.targets_known found (sibling_of_find leads)
  | builtin leads known => exact has_iff.mp known
  | source leads found selected =>
    exact mem_keys_of_source whole.sound.stored found
      (mem_tools_of_select (whole.wellFormed found) selected)

theorem Whole.resolves (whole : load.Whole context answers root first) {location : List Char}
    {source : Source} (found : load.source? location = some source) {tool : Tool}
    {reference : String} (refers : (tool, reference) ∈ load.references source) :
    ∃ target, load.target? tool.id reference = some target ∧
      Resolves context load tool reference target := by
  obtain ⟨target, mapped⟩ := whole.linked found refers
  obtain ⟨origin, own, same, elsewhere, resolves⟩ := whole.sound.mapped mapped
  obtain ⟨-, -, ⟨_, -, known⟩, -⟩ := mem_references_iff.mp refers
  obtain ⟨⟨_, known'⟩, -⟩ := elsewhere.tool
  have ids := (whole.sound.tool_id known').symm.trans (same.trans (whole.sound.tool_id known))
  rw [ids, known] at known'
  obtain rfl := Option.some.inj known'
  exact ⟨target, mapped, resolves⟩

end targets

/-! ### Finished tools -/

@[simp] theorem id_finished (load : Load) (tool : Tool) : (load.finished tool).id = tool.id := by
  unfold finished
  split <;> rfl

@[simp] theorem localTools_finished (load : Load) (tool : Tool) :
    (load.finished tool).localTools = tool.localTools := by
  unfold finished
  split <;> rfl

/-- Nothing changes but the table of references. -/
theorem finished_eq (load : Load) (tool : Tool) :
    load.finished tool = { tool with toolMapping := (load.finished tool).toolMapping } := by
  unfold finished
  split <;> rfl

def links (load : Load) (tool : Tool) : Entries String String :=
  tool.tools.filterMap (fun reference =>
    (load.target? tool.id reference).map (fun target => (reference, target)))

theorem toolMapping_finished (load : Load) (tool : Tool) :
    (load.finished tool).toolMapping = tool.toolMapping.merge (load.links tool) := by
  unfold finished links target?
  split
  next none =>
    have nothing : tool.tools.filterMap (fun reference =>
        ((load.mappings.get? tool.id).bind (·.get? reference)).map
          (fun target => (reference, target))) = [] := by
      rw [none]
      exact List.filterMap_eq_nil_iff.mpr (fun _ _ => rfl)
    rw [nothing]
    rfl
  next mapping found => rw [found]; rfl

theorem mem_links {load : Load} {tool : Tool} {reference target : String} :
    (reference, target) ∈ load.links tool ↔
      reference ∈ tool.tools ∧ load.target? tool.id reference = some target := by
  simp only [links, List.mem_filterMap, Option.map_eq_some_iff, Prod.mk.injEq]
  constructor
  · rintro ⟨_, member, _, found, rfl, rfl⟩
    exact ⟨member, found⟩
  · rintro ⟨member, found⟩
    exact ⟨reference, member, target, found, rfl, rfl⟩

theorem get?_toolMapping_finished (load : Load) (tool : Tool) (reference : String) :
    (load.finished tool).toolMapping.get? reference =
      (if reference ∈ tool.tools then load.target? tool.id reference else none).or
        (tool.toolMapping.get? reference) := by
  rw [toolMapping_finished, get?_merge]
  congr 1
  cases found : get? (load.links tool).reverse reference with
  | some target =>
    obtain ⟨member, mapped⟩ := mem_links.mp (List.mem_reverse.mp (mem_of_get? found))
    rw [if_pos member, mapped]
  | none =>
    split
    next member =>
      cases mapped : load.target? tool.id reference with
      | none => rfl
      | some target =>
        have link := List.mem_reverse.mpr (mem_links.mpr ⟨member, mapped⟩)
        exact absurd (List.mem_map_of_mem link) (get?_eq_none_iff.mp found)
    next => rfl

theorem mem_toolMapping_finished {load : Load} {tool : Tool} {reference target : String}
    (member : (reference, target) ∈ (load.finished tool).toolMapping) :
    (reference, target) ∈ tool.toolMapping ∨ load.target? tool.id reference = some target := by
  rw [toolMapping_finished] at member
  exact (mem_merge member).imp id (fun link => (mem_links.mp link).2)

theorem keys_toolMapping_finished {load : Load} {tool : Tool} (whole : tool.IsWhole)
    (linked : ∀ reference ∈ tool.unresolved,
      ∃ target, load.target? tool.id reference = some target) :
    (load.finished tool).toolMapping.keys = tool.tools.eraseDups := by
  rw [toolMapping_finished, keys_merge]
  rcases whole with none | all
  · have keys_links : (load.links tool).keys = tool.tools := by
      unfold links keys
      rw [List.map_filterMap]
      rw [List.filterMap_congr (g := some), List.filterMap_some]
      intro reference member
      have open_ : reference ∈ tool.unresolved :=
        List.mem_filter.mpr ⟨member, by simp [none, has]⟩
      obtain ⟨target, found⟩ := linked reference open_
      simp [found]
    rw [none, keys_links]
    simp [keys, List.removeAll]
  · have nothing : (load.links tool).keys.removeAll tool.toolMapping.keys = [] := by
      rw [List.removeAll, List.filter_eq_nil_iff]
      intro reference member
      obtain ⟨⟨_, target⟩, link, rfl⟩ := List.mem_map.mp member
      simp [all, List.mem_eraseDups, (mem_links.mp link).1]
    rw [nothing, all]
    simp

/-! ### The program -/

def ComesFrom (load : Load) (linked : Bool) (tool : Tool) : Prop :=
  ∃ location source, load.source? location = some source ∧ source.linked = linked ∧
    tool ∈ source.tools

def IsBuiltin (tool : Tool) : Prop := ∃ name, Builtin.find? name = some tool

theorem colon_not_mem_id {tool : Tool} (known : IsBuiltin tool) : ':' ∉ tool.id.toList := by
  obtain ⟨name, found⟩ := known
  obtain ⟨builtin, member, rfl⟩ := Option.map_eq_some_iff.mp found
  have plain : ∀ builtin ∈ Builtin.all, ':' ∉ builtin.name.toList := by decide
  exact plain builtin (List.mem_of_find?_eq_some member)

theorem Whole.provenance {context : LoadContext} {answers : Answers} {root : List Char}
    {first : Source} {load : Load} (whole : load.Whole context answers root first) {id : String}
    {tool : Tool} (found : load.tools.get? id = some tool) :
    load.ComesFrom false tool ∨ IsBuiltin tool ∨ load.ComesFrom true tool := by
  rcases whole.sound.known found with ⟨location, source, at_, own⟩ | ⟨_, _, _, -, leads⟩
  · cases linked : source.linked with
    | false => exact .inl ⟨location, source, at_, linked, own⟩
    | true => exact .inr (.inr ⟨location, source, at_, linked, own⟩)
  · exact .inr (.inl (builtin_of_find leads))

theorem Whole.keys_toolMapping {context : LoadContext} {answers : Answers} {root : List Char}
    {first : Source} {load : Load} (whole : load.Whole context answers root first) {id : String}
    {tool : Tool} (found : load.tools.get? id = some tool)
    (live : load.ComesFrom false tool ∨ IsBuiltin tool) :
    (load.finished tool).toolMapping.keys = tool.tools.eraseDups := by
  rcases live with ⟨location, source, at_, linked, own⟩ | ⟨name, known⟩
  · refine keys_toolMapping_finished (((whole.wellFormed at_).lined linked).whole tool own) ?_
    intro reference member
    have some : tool.unresolved ≠ [] := List.ne_nil_of_mem member
    refine whole.linked at_ (mem_references_iff.mpr ⟨linked, ⟨tool, own, some⟩, ⟨tool, own, ?_⟩, member⟩)
    rwa [whole.sound.tool_id found]
  · obtain ⟨-, tools, mapping⟩ := targets_builtin known
    exact keys_toolMapping_finished (.inl mapping) (by simp [Tool.unresolved, tools])

theorem Whole.finished_of_mem {context : LoadContext} {answers : Answers} {root : List Char}
    {first : Source} {load : Load} (whole : load.Whole context answers root first)
    {name entry id : String} {tool : Tool} (member : (id, tool) ∈ (load.program name entry).tools) :
    ∃ own, load.tools.get? id = some own ∧ tool = load.finished own := by
  obtain ⟨⟨_, own⟩, known, same⟩ := List.mem_map.mp member
  obtain ⟨rfl, rfl⟩ := Prod.mk.inj same
  exact ⟨own, get?_of_mem whole.sound.distinct known, rfl⟩

theorem Whole.closed {context : LoadContext} {answers : Answers} {root : List Char}
    {first : Source} {load : Load} (whole : load.Whole context answers root first)
    {name subTool entry : String} (selected : first.select subTool = .ok entry) :
    (load.program name entry).Closed := by
  have rooted := whole.sound.rooted
  refine ⟨?_, ?_, ?_⟩
  · simp only [program, keys_mapValues]
    exact mem_keys_of_source whole.sound.stored rooted
      (mem_tools_of_select (whole.wellFormed rooted) selected)
  · intro id tool member
    obtain ⟨own, found, rfl⟩ := whole.finished_of_mem member
    rw [id_finished, whole.sound.tool_id found]
  · intro id tool target member present
    obtain ⟨own, found, rfl⟩ := whole.finished_of_mem member
    simp only [program, keys_mapValues]
    rcases Tool.mem_targets.mp present with ⟨reference, mapped⟩ | ⟨named, given⟩
    · rcases mem_toolMapping_finished mapped with old | new
      · exact whole.targets_known found (Tool.mem_targets.mpr (.inl ⟨reference, old⟩))
      · exact whole.target_known new
    · rw [localTools_finished] at given
      exact whole.targets_known found (Tool.mem_targets.mpr (.inr ⟨named, given⟩))

/-- A program that is loaded is closed and completely linked. -/
theorem closed_and_linked {request : LoadRequest} {world : World} {program : Program}
    (returns : Returns request world program) :
    program.Closed ∧ program.tools.keys.Nodup ∧
      ∃ answers load, Completes request world.place answers load program.entry ∧
        program = load.program request.name program.entry ∧
        ∀ {id tool}, load.tools.get? id = some tool →
          (load.ComesFrom false tool ∨ IsBuiltin tool ∨ load.ComesFrom true tool) ∧
          (load.ComesFrom false tool ∨ IsBuiltin tool →
            (load.finished tool).toolMapping.keys = tool.tools.eraseDups) := by
  obtain ⟨answers, load, done, same⟩ := returns.completes
  obtain ⟨root, first, -, selected, whole⟩ := done.whole
  have closed : (load.program request.name program.entry).Closed := whole.closed selected
  have distinct : (load.program request.name program.entry).tools.keys.Nodup := by
    simpa only [Load.program, keys_mapValues] using whole.sound.distinct
  rw [← same] at closed distinct
  exact ⟨closed, distinct, answers, load, done, same, fun found =>
    ⟨whole.provenance found, whole.keys_toolMapping found⟩⟩

/-- A file that refers to another one and to a built-in tool. -/
def chain : World :=
  .ofFiles "/work" [("/work/a.gpt", "tools: b.gpt, sys.read\n\nGo on."), ("/work/b.gpt", "Stop.")]

set_option maxRecDepth 10000 in
theorem chain_closed_and_linked :
    ∃ program, Returns (.of "a.gpt") chain program ∧ program.Closed ∧
      program.tools.keys = ["/work/a.gpt:1", "sys.read", "/work/b.gpt:1"] := by
  have keys : (run (.of "a.gpt") chain).result.toOption.map (·.tools.keys) =
      some ["/work/a.gpt:1", "sys.read", "/work/b.gpt:1"] := by decide +kernel
  cases loaded : (run (.of "a.gpt") chain).result with
  | error error => simp [loaded, Except.toOption] at keys
  | ok program =>
    simp only [loaded, Except.toOption, Option.map_some, Option.some.injEq] at keys
    exact ⟨program, .inl loaded, (closed_and_linked (.inl loaded)).1, keys⟩

end ToolGraph.Load
