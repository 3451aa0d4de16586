import ToolGraph.Proofs.JsonForm

/-!
An artifact holds its program. What comes out of it has the same texts as what went in, and is equal to
it where the arguments are JSON data.
-/
namespace ToolGraph

namespace Artifact
open Program
variable {program : Program}

/-! ### Writing -/

theorem members?_of_form {json : Json} (form : program.toJson? = some json)
    (printable : json.isPrintable = true) {id : String} (member : id ∈ program.tools.keys) :
    ∃ tool arguments, program.tool? id = some tool ∧ tool.argumentsMember? = some arguments ∧
      (Json.object (tool.membersWith .text arguments)).isPrintable = true := by
  obtain ⟨tools, forms, rfl⟩ := toJson?_eq_some.mp form
  obtain ⟨_, present, tool, arguments, found, given, rfl⟩ :=
    exists_right_of_forall₂ forms (mem_sortIds.mpr member)
  have toolSet : (Json.object tools).isPrintable = true :=
    Json.isPrintable_object.mp printable ("toolSet", .object tools) (by simp)
  exact ⟨tool, arguments, found, given, Json.isPrintable_object.mp toolSet _ present⟩

section tools
variable {ids : List String} {tool : Tool} {arguments : List (String × Json)}

theorem printable_membersWith (few : ids.length ≤ 10 ^ Number.maxDigits)
    (closed : ∀ target ∈ tool.targets, target ∈ ids)
    (printable : (Json.object (tool.membersWith .text arguments)).isPrintable = true) :
    (Json.object (tool.membersWith (fun target => .int (ids.idxOf target)) arguments)).isPrintable =
      true := by
  have table : ∀ {table : Entries String String}, (∀ entry ∈ table, entry.2 ∈ ids) →
      (Tool.tableJson (fun target => .int (ids.idxOf target)) table).isPrintable = true := by
    intro table known
    refine Json.isPrintable_object.mpr fun member present => ?_
    obtain ⟨entry, origin, rfl⟩ := List.mem_map.mp present
    have place := List.idxOf_lt_length_of_mem (known entry origin)
    rw [Json.isPrintable_natCast]
    exact Nat.lt_of_lt_of_le place few
  have all : ∀ target, (∀ member ∈ tool.membersWith target arguments, member.2.isPrintable = true) ↔ _ :=
    fun _ => Tool.forall_membersWith (fun json => json.isPrintable = true) rfl (fun _ => rfl)
      (fun _ => rfl)
  obtain ⟨tokens, numbers, own, references, -, -, origin⟩ :=
    (all _).mp (Json.isPrintable_object.mp printable)
  refine Json.isPrintable_object.mpr ((all _).mpr
    ⟨tokens, numbers, own, references, fun _ => table ?_, table ?_, origin⟩)
  · exact fun entry member => closed entry.2 (Tool.mem_targets.mpr (.inl ⟨entry.1, member⟩))
  · exact fun entry member => closed entry.2 (Tool.mem_targets.mpr (.inr ⟨entry.1, member⟩))

end tools

def Stands (program : Program) (ids : List String) (id : String) (json : Json) : Prop :=
  ∃ tool arguments, program.tool? id = some tool ∧ tool.argumentsMember? = some arguments ∧
    json = .object (tool.membersWith (fun target => .int (ids.idxOf target)) arguments)

def data (program : Program) (tools : List Json) : Json :=
  .object [("kind", .text Document.artifactKind), ("name", .text program.name), ("entry", .int 0),
    ("tools", .list tools)]

theorem checkTargets_cases (ids : List String) (id : String) (tool : Tool) :
    checkTargets ids id tool = .ok () ∧ (∀ target ∈ tool.targets, target ∈ ids) ∨
      ∃ target ∈ tool.targets, target ∉ ids ∧
        checkTargets ids id tool = .error (.artifact (.dangling id target)) := by
  unfold checkTargets
  split
  next entry found =>
    have member := List.mem_of_find?_eq_some found
    have foreign : entry.2 ∉ ids := by simpa using List.find?_some found
    refine .inr ⟨entry.2, Tool.mem_targets.mpr ?_, foreign, rfl⟩
    exact (List.mem_append.mp member).imp (⟨entry.1, ·⟩) (⟨entry.1, ·⟩)
  next none =>
    refine .inl ⟨rfl, fun target member => ?_⟩
    have known : ∀ name, (name, target) ∈ tool.toolMapping ++ tool.localTools → target ∈ ids := by
      intro name member
      simpa using List.find?_eq_none.mp none _ member
    rcases Tool.mem_targets.mp member with ⟨name, mapped⟩ | ⟨name, named⟩
    · exact known name (List.mem_append_left _ mapped)
    · exact known name (List.mem_append_right _ named)

theorem checkTargets_ok {ids : List String} {id : String} {tool : Tool}
    (closed : ∀ target ∈ tool.targets, target ∈ ids) : checkTargets ids id tool = .ok () := by
  rcases checkTargets_cases ids id tool with ⟨passed, -⟩ | ⟨target, member, unknown, -⟩
  · exact passed
  · exact absurd (closed target member) unknown

theorem targets_mem_order (closed : program.Closed) {id : String} {tool : Tool}
    (found : program.tool? id = some tool) :
    ∀ target ∈ tool.targets, target ∈ order program := fun _ member =>
  (mem_order closed).mpr (closed.targets (Entries.mem_of_get? found) member)

theorem toJson_eq_ok (closed : program.Closed) {tools : List Json}
    (stands : List.Forall₂ (Stands program (order program)) (order program) tools) :
    toJson program = .ok (data program tools) := by
  have each : (order program).mapM (toolJson program (order program)) = .ok tools := by
    refine mapM_eq_ok.mpr (stands.imp fun id json stands => ?_)
    obtain ⟨tool, arguments, found, known, rfl⟩ := stands
    simp only [toolJson, found, Tool.members?, known, Option.map_some,
      checkTargets_ok (targets_mem_order closed found)]
    rfl
  rw [toJson]
  simp only [each]
  rfl

/-! ### Reading back -/

theorem member_id (closed : program.Closed) {ids : List String} {id : String} {json : Json}
    (stands : Stands program ids id json) : member (.ofJson json) "id" = .ok (.text id) := by
  obtain ⟨tool, arguments, found, known, rfl⟩ := stands
  rw [Value.ofJson, member, Value.entry?_ofMembers, Tool.get?_membersWith known, Tool.memberAt?]
  exact congrArg (fun id => Except.ok (Value.text id)) (closed.ids (Entries.mem_of_get? found))

theorem readTools (closed : program.Closed) (distinct : program.Distinct) {ids : List String}
    {tools : List Json} (stands : List.Forall₂ (Stands program (order program)) ids tools) :
    List.Forall₂ (fun json entry => readTool ((order program).map Value.text) (.ofJson json) =
      .ok entry.2 ∧ entry.2.id = entry.1) tools (program.exchangedTools ids) := by
  induction stands with
  | nil => exact .nil
  | @cons id json ids tools first _ ih =>
    obtain ⟨tool, arguments, found, known, rfl⟩ := first
    have member := Entries.mem_of_get? found
    have form : tool.members? (fun target => .int ((order program).idxOf target)) =
        some (tool.membersWith (fun target => .int ((order program).idxOf target)) arguments) := by
      rw [Tool.members?, known, Option.map_some]
    have read := readTool_members (distinct.tables member) (targets_mem_order closed found) form
    have same : tool.id = id := closed.ids member
    rw [exchangedTools, List.filterMap_cons, found]
    exact .cons ⟨read, same⟩ ih

theorem ofValue_data (closed : program.Closed) (distinct : program.Distinct) {tools : List Json}
    (stands : List.Forall₂ (Stands program (order program)) (order program) tools) :
    ofValue (.ofJson (data program tools)) = .ok program.exchanged := by
  have ids : (Value.ofItems tools).mapM (fun entry => member entry "id") =
      .ok ((order program).map Value.text) := by
    rw [mapM_eq_ok, Value.ofItems_eq, List.forall₂_map_left_iff, List.forall₂_map_right_iff]
    exact stands.flip.imp fun json id stands => member_id closed stands
  have entries := readTools closed distinct stands
  have own : (Value.ofItems tools).mapM (readTool ((order program).map Value.text)) =
      .ok program.exchanged.tools.values := by
    rw [mapM_eq_ok, Value.ofItems_eq, Entries.values, List.forall₂_map_left_iff,
      List.forall₂_map_right_iff]
    exact entries.imp fun json entry read => read.1
  have table : program.exchanged.tools.values.map (fun tool => (tool.id, tool)) =
      program.exchanged.tools := by
    rw [Entries.values, List.map_map]
    refine (List.map_congr_left fun entry present => ?_).trans (List.map_id _)
    obtain ⟨json, -, -, same⟩ := exists_left_of_forall₂ entries present
    exact congrArg (Prod.mk · entry.2) same
  have keys : (Entries.keys program.exchanged.tools).Nodup := by
    rw [keys_exchanged closed]
    exact nodup_order distinct
  have first : idAt ((order program).map Value.text) (.int 0) = .ok (.text program.entry) := rfl
  have toolsAt : member (.ofJson (data program tools)) "tools" = .ok (.list (Value.ofItems tools)) := by
    simp [data, Value.ofJson, Value.ofMembers, member, Value.entry?_cons]
  have nameAt : member (.ofJson (data program tools)) "name" = .ok (.text program.name) := by
    simp [data, Value.ofJson, Value.ofMembers, member, Value.entry?_cons]
  have entryAt : member (.ofJson (data program tools)) "entry" = .ok (.int 0) := by
    simp [data, Value.ofJson, Value.ofMembers, member, Value.entry?_cons]
  rw [ofValue, toolsAt]
  simp only [bind, Except.bind, parts, ids, own, nameAt, entryAt, first]
  rw [Schema.field_of_entry rfl, Schema.field_of_entry rfl, table, Entries.ofPairs_of_distinct keys]
  rfl

theorem proper_data (distinct : program.Distinct) {tools : List Json}
    (stands : List.Forall₂ (Stands program (order program)) (order program) tools) :
    (data program tools).Proper fun _ => True := by
  refine .object (show ["kind", "name", "entry", "tools"].Nodup by decide) ?_
  simp only [List.forall_mem_cons]
  refine ⟨.text _, .text _, .int _, .list fun json member => ?_, by simp⟩
  obtain ⟨id, -, tool, arguments, found, known, rfl⟩ := exists_left_of_forall₂ stands member
  exact Tool.proper_membersWith (fun _ => .int _) (distinct.tables (Entries.mem_of_get? found)) known

theorem parse_data (distinct : program.Distinct) {tools : List Json}
    (stands : List.Forall₂ (Stands program (order program)) (order program) tools)
    (written : (data program tools).isPrintable = true) :
    Json.parse ((data program tools).render layout ++ "\n") = .ok (data program tools) := by
  have blank : ∀ c ∈ "\n".toList, Json.isSpace c = true := by simp [Json.isSpace]
  exact Json.parse_render rfl (proper_data distinct stands) written blank

theorem disassemble_data (closed : program.Closed) (distinct : program.Distinct) {tools : List Json}
    (stands : List.Forall₂ (Stands program (order program)) (order program) tools)
    (written : (data program tools).isPrintable = true) :
    disassemble ((data program tools).render layout ++ "\n") = .ok program.exchanged := by
  have kind : ((data program tools).member? "kind").bind Json.text? = some Document.artifactKind := rfl
  rw [disassemble, parse_data distinct stands written]
  simp only [kind, ↓reduceIte]
  exact ofValue_data closed distinct stands

/-! ### Round trips -/

theorem disassemble_exchanged {json : Json} (closed : program.Closed) (distinct : program.Distinct)
    (form : program.toJson? = some json) (printable : json.isPrintable = true)
    (few : program.tools.length ≤ 10 ^ Number.maxDigits) :
    ∃ text, assemble program = .ok text ∧ disassemble text = .ok program.exchanged := by
  have length : (order program).length ≤ 10 ^ Number.maxDigits := by
    rw [(order_perm closed distinct).length_eq, Entries.keys, List.length_map]
    exact few
  have each : ∀ id ∈ order program, ∃ json, Stands program (order program) id json ∧
      json.isPrintable = true := by
    intro id member
    obtain ⟨tool, arguments, found, known, written⟩ :=
      members?_of_form form printable ((mem_order closed).mp member)
    exact ⟨_, ⟨tool, arguments, found, known, rfl⟩,
      printable_membersWith length (targets_mem_order closed found) written⟩
  obtain ⟨tools, all⟩ := exists_forall₂ each
  have stands : List.Forall₂ (Stands program (order program)) (order program) tools :=
    all.imp fun _ _ => And.left
  have written : (data program tools).isPrintable = true := by
    simp only [data, Json.isPrintable_object, List.forall_mem_cons]
    refine ⟨rfl, rfl, Json.isPrintable_natCast.mpr (Nat.pow_pos (by decide)),
      Json.isPrintable_list.mpr fun json member => ?_, by simp⟩
    obtain ⟨id, -, -, own⟩ := exists_left_of_forall₂ all member
    exact own
  refine ⟨_, ?_, disassemble_data closed distinct stands written⟩
  rw [assemble, toJson_eq_ok closed stands]
  simp only [bind, Except.bind, Json.print?, written]
  rfl

/-- The program that an artifact is read as has the same name, entry and ids, the same texts in every
layout and the same artifact. It is equal to the one that was assembled where the arguments are JSON
data and no temperature is not a number. -/
theorem disassemble_assemble {json : Json} (closed : program.Closed) (distinct : program.Distinct)
    (form : program.toJson? = some json) (printable : json.isPrintable = true)
    (few : program.tools.length ≤ 10 ^ Number.maxDigits) :
    ∃ text result, assemble program = .ok text ∧ disassemble text = .ok result ∧
      result.name = program.name ∧ result.entry = program.entry ∧
      result.tools.keys.Perm program.tools.keys ∧
      (∀ layout, ∃ written, program.text layout = .ok written ∧ result.text layout = .ok written) ∧
      ((∀ entry ∈ program.tools,
          entry.2.HasJsonArguments ∧ entry.2.temperature ≠ some .nan) →
        result.same program = true ∧ program.same result = true) ∧
      assemble result = .ok text := by
  obtain ⟨text, assembled, read⟩ := disassemble_exchanged closed distinct form printable few
  have after := afterExchange_exchanged closed distinct
  refine ⟨text, program.exchanged, assembled, read, rfl, rfl, ?keys, ?texts, ?equal, ?again⟩
  case keys =>
    rw [keys_exchanged closed]
    exact order_perm closed distinct
  case texts =>
    intro layout
    have written : program.text layout = .ok (json.render layout) := by
      simp only [Program.text, form, Json.print?, printable]
      rfl
    exact ⟨_, written, (after.text layout).trans written⟩
  case equal =>
    intro plain
    have alike := after.alike distinct fun entry member => (plain entry member).1
    have reflexive : ∀ entry ∈ program.tools, entry.2.same entry.2 = true := fun entry member =>
      Tool.same_self (distinct.tables member) (plain entry member).1 (plain entry member).2
    refine ⟨alike.same fun entry member => ?_, alike.symm.same reflexive⟩
    have found : program.exchanged.tool? entry.1 = some entry.2 :=
      Entries.get?_of_mem alike.distinct member
    exact reflexive entry (Entries.mem_of_get? ((alike.tool entry.1).symm.trans found))
  case again => rw [after.assemble, assembled]

def pair : Program where
  name := "pair"
  entry := "b"
  tools := [
    ("a", { Tool.named "a" with arguments := some [("depth", .int 3)], localTools := [("", "a")] }),
    ("b", { Tool.named "b" with
      tools := ["a"], toolMapping := [("a", "a")], localTools := [("", "b")] })]

theorem pair_round_trip :
    ∃ text result, assemble pair = .ok text ∧ disassemble text = .ok result ∧
      result.same pair = true ∧ assemble result = .ok text := by
  have tools : ∀ {id tool}, (id, tool) ∈ pair.tools → tool.id = id ∧ tool.Distinct ∧
      tool.HasJsonArguments ∧ tool.temperature ≠ some .nan ∧
      ∀ target ∈ tool.targets, target ∈ pair.tools.keys := by
    intro id tool member
    simp only [pair, List.mem_cons, List.not_mem_nil, or_false, Prod.mk.injEq] at member
    rcases member with ⟨rfl, rfl⟩ | ⟨rfl, rfl⟩
    · refine ⟨rfl, ⟨by decide, by decide, ?_⟩, ?_, by decide, by decide⟩
      · rintro arguments ⟨⟩
        decide
      · rintro arguments ⟨⟩
        exact ⟨.object [("depth", .int 3)], .object (by decide) (by simp [Json.Proper.int]), rfl⟩
    · refine ⟨rfl, ⟨by decide, by decide, ?_⟩, ?_, by decide, by decide⟩
      · rintro arguments ⟨⟩
      · rintro arguments ⟨⟩
  obtain ⟨json, form, printable⟩ : ∃ json, pair.toJson? = some json ∧ json.isPrintable = true :=
    ⟨_, rfl, by decide +kernel⟩
  obtain ⟨text, result, assembled, read, -, -, -, -, equal, again⟩ :=
    disassemble_assemble ⟨by decide, fun member => (tools member).1, fun member => (tools member).2.2.2.2 _⟩
      ⟨by decide, fun member => (tools member).2.1⟩ form printable (by decide +kernel)
  have same := equal fun entry member => ⟨(tools member).2.2.1, (tools member).2.2.2.1⟩
  exact ⟨text, result, assembled, read, same.1, again⟩

def tooLong : Program where
  name := "long"
  entry := "a"
  tools := [("a", { Tool.named "a" with maxTokens := some (10 ^ Number.maxDigits) })]

/-- A program can have a JSON form and still not be assembled. -/
theorem tooLong_not_assembled :
    tooLong.Closed ∧ tooLong.Distinct ∧ (∃ json, tooLong.toJson? = some json) ∧
      assemble tooLong = .error (.bare (.json .hugeInteger)) := by
  have tools : ∀ {id tool}, (id, tool) ∈ tooLong.tools → tool.id = id ∧ tool.Distinct ∧
      ∀ target ∈ tool.targets, target ∈ tooLong.tools.keys := by
    intro id tool member
    obtain ⟨rfl, rfl⟩ := Prod.mk.inj (List.mem_singleton.mp member)
    refine ⟨rfl, ⟨List.nodup_nil, List.nodup_nil, ?_⟩, fun target member => ?_⟩
    · rintro arguments ⟨⟩
    · exact absurd member List.not_mem_nil
  obtain ⟨json, written, long⟩ : ∃ json, toJson tooLong = .ok json ∧ json.isPrintable = false :=
    ⟨_, rfl, by decide +kernel⟩
  refine ⟨⟨List.mem_singleton.mpr rfl, fun member => (tools member).1, fun member => (tools member).2.2 _⟩,
    ⟨List.nodup_singleton _, fun member => (tools member).2.1⟩, ⟨_, rfl⟩, ?_⟩
  rw [assemble, written]
  simp only [bind, Except.bind, Json.print?, long]
  rfl

end Artifact
end ToolGraph
