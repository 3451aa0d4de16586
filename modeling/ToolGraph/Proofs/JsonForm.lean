import ToolGraph.Proofs.Exchanged

/-!
The JSON form of a program. Its text is read as the program after an exchange, in every layout.
-/
namespace ToolGraph

theorem Tool.check_form {tool : Tool} {arguments : List (String × Json)} (distinct : tool.Distinct)
    (known : tool.argumentsMember? = some arguments) :
    Tool.check (.ofJson (.object (tool.membersWith .text arguments))) = .valid tool.exchanged := by
  have table : ∀ {table : Entries String String}, (Entries.keys table).Nodup →
      Schema.table Schema.text (.ofJson (tableJson .text table)) = .valid table := by
    intro table keys
    have form : Value.ofJson (tableJson .text table) =
        Value.ofTable (Entries.mapValues .text table) := by
      rw [tableJson, Value.ofJson_object, Entries.mapValues, Entries.mapValues, List.map_map]
      rfl
    rw [form]
    exact Schema.table_ofTable keys fun value => rfl
  have lookup : ∀ key, Value.entry? (Value.ofMembers (tool.membersWith .text arguments)) (.text key) =
      (Entries.get? (tool.membersWith .text arguments) key).map .ofJson :=
    Value.entry?_ofMembers _
  refine Artifact.check_membersWith distinct known ?_ ?_ fun key _ _ => lookup key
  · rw [lookup, get?_membersWith known, memberAt?]
    split
    next empty => exact congrArg some (List.isEmpty_iff.mp empty).symm
    next => exact table distinct.mapping
  · rw [lookup, get?_membersWith known, memberAt?]
    exact table distinct.locals

namespace Program
open Schema
variable {program : Program}

/-! ### Writing -/

def IsForm (program : Program) (id : String) (member : String × Json) : Prop :=
  ∃ tool arguments, program.tool? id = some tool ∧ tool.argumentsMember? = some arguments ∧
    member = (id, .object (tool.membersWith .text arguments))

def formOf (program : Program) (tools : List (String × Json)) : Json :=
  .object [("name", .text program.name), ("entryToolId", .text program.entry),
    ("toolSet", .object tools)]

theorem toJson?_eq_some {json : Json} :
    program.toJson? = some json ↔
      ∃ tools, List.Forall₂ program.IsForm program.ids tools ∧ program.formOf tools = json := by
  have each : ∀ id member, (program.tool? id).bind (fun tool => tool.toJson?.map (fun json => (id, json))) =
      some member ↔ program.IsForm id member := by
    intro id member
    simp only [Option.bind_eq_some_iff, Option.map_eq_some_iff, Tool.toJson?, Tool.members?, IsForm]
    constructor
    · rintro ⟨tool, found, _, ⟨_, ⟨arguments, known, rfl⟩, rfl⟩, rfl⟩
      exact ⟨tool, arguments, found, known, rfl⟩
    · rintro ⟨tool, arguments, found, known, rfl⟩
      exact ⟨tool, found, _, ⟨_, ⟨arguments, known, rfl⟩, rfl⟩, rfl⟩
  rw [Program.toJson?, Option.map_eq_some_iff]
  simp only [mapM_eq_some, each]
  rfl

theorem exists_argumentsMember? {json : Json} (distinct : program.Distinct)
    (form : program.toJson? = some json) :
    ∀ entry ∈ program.tools, ∃ arguments, entry.2.argumentsMember? = some arguments := by
  rintro ⟨id, tool⟩ member
  obtain ⟨tools, forms, -⟩ := toJson?_eq_some.mp form
  obtain ⟨_, -, own, arguments, found, given, -⟩ :=
    exists_right_of_forall₂ forms (mem_sortIds.mpr (List.mem_map_of_mem member))
  obtain rfl := Option.some.inj (found.symm.trans (Entries.get?_of_mem distinct.ids member))
  exact ⟨arguments, given⟩

theorem text_eq_ok {layout : Json.Layout} {text : String} :
    program.text layout = .ok text ↔
      ∃ json, program.toJson? = some json ∧ json.isPrintable = true ∧ json.render layout = text := by
  rw [Program.text]
  cases program.toJson? with
  | none => simp
  | some json =>
    cases printable : json.isPrintable <;> simp [Json.print?, printable]

/-! ### Reading -/

def reread (program : Program) : Program :=
  { program with tools := program.exchangedTools program.ids }

theorem tool?_of_mem_ids {id : String} (member : id ∈ program.ids) :
    ∃ tool, program.tool? id = some tool :=
  Entries.mem_keys_iff.mp (mem_sortIds.mp member)

theorem keys_reread (program : Program) : program.reread.tools.keys = program.ids :=
  keys_exchangedTools fun _ member => tool?_of_mem_ids member

theorem afterExchange_reread (program : Program) : program.AfterExchange program.reread where
  name := rfl
  entry := rfl
  keys := keys_reread program ▸ sortIds_perm _
  tool := tool?_exchangedTools fun _ => mem_sortIds

theorem check_tools (distinct : program.Distinct) {ids : List String} {tools : List (String × Json)}
    (apart : ids.Nodup) (forms : List.Forall₂ program.IsForm ids tools) :
    table Tool.check (.ofJson (.object tools)) = .valid (program.exchangedTools ids) := by
  have known : ∀ id ∈ ids, ∃ tool, program.tool? id = some tool := by
    intro id member
    obtain ⟨_, -, tool, _, found, -⟩ := exists_right_of_forall₂ forms member
    exact ⟨tool, found⟩
  have entries : List.Forall₂ (fun member entry =>
      Prod.mk <$> key (.text member.1) <*>
        .within (keyStep (.text member.1)) (Tool.check (.ofJson member.2)) = .valid entry) tools
      (program.exchangedTools ids) := by
    clear apart known
    induction forms with
    | nil => exact .nil
    | @cons id member ids tools first _ ih =>
      obtain ⟨tool, arguments, found, given, rfl⟩ := first
      have read := Tool.check_form (distinct.tables (Entries.mem_of_get? found)) given
      rw [exchangedTools, List.filterMap_cons, found]
      refine .cons ?_ ih
      simp [read, key, Schema.text]
  rw [Value.ofJson, Value.ofMembers_eq, table, Checked.map_eq_valid]
  refine ⟨program.exchangedTools ids, ?_, Entries.ofPairs_of_distinct ?_⟩
  · rw [Checked.all_eq_valid, List.map_map, List.forall₂_map_left_iff]
    exact entries
  · rwa [keys_exchangedTools known]

theorem check_formOf (distinct : program.Distinct) {tools : List (String × Json)}
    (forms : List.Forall₂ program.IsForm program.ids tools) :
    check (.ofJson (program.formOf tools)) = .valid program.reread := by
  have tools := check_tools distinct (nodup_sortIds distinct.ids) forms
  rw [formOf, Value.ofJson, check, record]
  simp only [Checked.seq_eq_valid, Checked.map_eq_valid]
  refine ⟨_, ⟨_, ⟨program.name, ?_, rfl⟩, program.entry, ?_, rfl⟩, _, ?_, rfl⟩
  · rw [field_of_entry rfl]
    rfl
  · rw [field_of_entry rfl]
    rfl
  · rw [field_of_entry rfl, Checked.within_eq_valid]
    exact tools

theorem proper_formOf (distinct : program.Distinct) {tools : List (String × Json)}
    (forms : List.Forall₂ program.IsForm program.ids tools) :
    (program.formOf tools).Proper fun _ => True := by
  have names : Entries.keys tools = program.ids := by
    rw [Entries.keys, ← List.forall₂_eq_eq_eq, List.forall₂_map_left_iff]
    exact forms.flip.imp fun member id form => by
      obtain ⟨_, _, -, -, rfl⟩ := form
      rfl
  have own : (Json.object tools).Proper fun _ => True := by
    refine .object (names ▸ nodup_sortIds distinct.ids) fun member present => ?_
    obtain ⟨id, -, tool, arguments, found, known, rfl⟩ := exists_left_of_forall₂ forms present
    exact Tool.proper_membersWith (fun _ => .text _) (distinct.tables (Entries.mem_of_get? found)) known
  refine .object (show ["name", "entryToolId", "toolSet"].Nodup by decide) ?_
  simp only [List.forall_mem_cons]
  exact ⟨.text _, .text _, own, by simp⟩

theorem check_parse_text (distinct : program.Distinct) {indent : Option Nat} {text : String}
    (written : program.text ⟨indent, false⟩ = .ok text) :
    ∃ json, Json.parse text = .ok json ∧ check (.ofJson json) = .valid program.reread := by
  obtain ⟨json, form, printable, rfl⟩ := text_eq_ok.mp written
  obtain ⟨tools, forms, rfl⟩ := toJson?_eq_some.mp form
  have parsed : Json.parse ((program.formOf tools).render ⟨indent, false⟩ ++ "") =
      .ok (program.formOf tools) :=
    Json.parse_render rfl (proper_formOf distinct forms) printable (by simp)
  rw [String.append_empty] at parsed
  exact ⟨_, parsed, check_formOf distinct forms⟩

/-- A text of a program is read as a program with the same texts. It is the same program if and only if
the arguments are JSON data and no temperature is not a number. -/
structure ReadsAs (program : Program) (text : String) (result : Program) : Prop where
  read : ∃ json, Json.parse text = .ok json ∧ check (.ofJson json) = .valid result
  name : result.name = program.name
  entry : result.entry = program.entry
  keys : result.tools.keys.Perm program.tools.keys
  texts : ∀ layout, result.text layout = program.text layout
  same : result.same program = true ↔
    ∀ entry ∈ program.tools, entry.2.HasJsonArguments ∧ entry.2.temperature ≠ some .nan

theorem readsAs_reread (distinct : program.Distinct) {indent : Option Nat} {text : String}
    (written : program.text ⟨indent, false⟩ = .ok text) : program.ReadsAs text program.reread := by
  have after := afterExchange_reread program
  obtain ⟨json, form, -, -⟩ := text_eq_ok.mp written
  refine ⟨check_parse_text distinct written, after.name, after.entry, after.keys, after.text, ?_⟩
  rw [after.same_iff distinct]
  refine forall₂_congr fun entry member => ?_
  obtain ⟨arguments, known⟩ := exists_argumentsMember? distinct form entry member
  exact Tool.same_exchanged_iff (distinct.tables member) known

theorem exists_fault_of_toJson? (none : program.toJson? = none) :
    ∃ fault, program.fault? = some fault := by
  cases known : program.fault? with
  | some fault => exact ⟨fault, rfl⟩
  | none =>
    rw [fault?, List.findSome?_eq_none_iff] at known
    have each : ∀ id ∈ program.ids, ∃ member, program.IsForm id member := by
      intro id member
      obtain ⟨tool, found⟩ := Entries.mem_keys_iff.mp (mem_sortIds.mp member)
      have writable : tool.IsWritable := by
        have sound := known id member
        rwa [tool?, found] at sound
      obtain ⟨arguments, given⟩ := Tool.isWritable_iff_argumentsMember?.mp writable
      exact ⟨_, tool, arguments, found, given, rfl⟩
    obtain ⟨tools, forms⟩ := exists_forall₂ each
    rw [toJson?_eq_some.mpr ⟨tools, forms, rfl⟩] at none
    cases none

theorem fault_cases {fault : Fault} (known : program.fault? = some fault) :
    ∃ entry ∈ program.tools, entry.2.fault? = some fault := by
  obtain ⟨id, -, found⟩ := List.exists_of_findSome?_eq_some known
  obtain ⟨tool, given, own⟩ := Option.bind_eq_some_iff.mp found
  exact ⟨(id, tool), Entries.mem_of_get? given, own⟩

/-- Where a program has no text, an integer is too long, or an argument is too deep or has a part that
cannot be encoded. -/
theorem cause_of_text_eq_error {layout : Json.Layout} {error : Error}
    (failed : program.text layout = .error error) :
    error = .bare (.json .hugeInteger) ∨ ∃ fault, error = .bare fault ∧
      ∃ member ∈ program.tools, ∃ table ∈ member.2.arguments, ∃ entry ∈ table,
        entry.2.fault? Value.maxLevels = some fault ∧
          (Value.maxLevels < entry.2.levels ∨ ¬ entry.2.IsEncodable) := by
  rw [Program.text] at failed
  split at failed
  next none =>
    obtain ⟨fault, known⟩ := exists_fault_of_toJson? none
    obtain ⟨member, present, own⟩ := fault_cases known
    rw [known] at failed
    exact .inr ⟨fault, (Except.error.inj failed).symm, member, present, Tool.fault_cases own⟩
  next =>
    split at failed
    next => cases failed
    next => exact .inl (Except.error.inj failed).symm

end Program
end ToolGraph
