import ToolGraph.Proofs.Artifact.Refusals
import ToolGraph.Proofs.Artifact.Tools
import ToolGraph.Proofs.Json.Reading

/-!
Positions in an artifact. The entry and the values in the tables of the tools lead to the ids of the
listed tools. Besides whole numbers from zero on, numbers that count from the end and truth values
count as positions; whatever else stands in the place of one, or is beyond the list, is not read.
-/
namespace ToolGraph

namespace Artifact
open Schema
variable {ids : List String} {json index : Json} {key : String} {value : Value} {program : Program}

/-- The ways to write the place of an item in a list: from its start, from its end or, for the first two
items, as a truth value. -/
inductive Writes (count place : Nat) : Json → Prop where
  | position : Writes count place (.int place)
  | fromEnd : Writes count place (.int (place - count))
  | truth {value : Bool} (same : value.toNat = place) : Writes count place (.bool value)

def Names (ids : List String) (index : Json) (id : String) : Prop :=
  ∃ place, ids[place]? = some id ∧ Writes ids.length place index

/-- What a table of indices is read as: the ids under the same keys. -/
inductive TableOf (ids : List String) (table : Json) : Entries String String → Prop where
  | absent (absent : IsAbsent table) : TableOf ids table []
  | object {members : List (String × Json)} {targets : Entries String String}
      (given : table = .object members)
      (each : List.Forall₂ (fun member target => member.1 = target.1 ∧ Names ids member.2 target.2)
        members targets) : TableOf ids table targets

structure ReadAs (ids : List String) (item : Json) (tool : Tool) : Prop where
  id : item.member? "id" = some (.text tool.id)
  mapping : TableOf ids (memberOrNull item "toolMapping") tool.toolMapping
  locals : TableOf ids (memberOrNull item "localTools") tool.localTools

/-- The tools that an artifact lists, and their ids. -/
structure Lists (json : Json) (items : List Json) (ids : List String) : Prop where
  tools : json.member? "tools" = some (.list items)
  ids : List.Forall₂ (fun item id => item.member? "id" = some (.text id)) items ids

/-! ### Members and positions -/

theorem text_ofJson {name : String} : text (.ofJson json) = .valid name ↔ json = .text name := by
  cases json <;> simp [Value.ofJson, text, Checked.issue]

theorem names_int {number : Int} {id : String} :
    Names ids (.int number) id ↔ itemAt? ids number = some id := by
  rw [itemAt?_eq_some]
  refine exists_congr fun place => and_congr_right fun _ => ⟨?_, ?_⟩
  · rintro (_ | _)
    · exact .inl rfl
    · exact .inr rfl
  · rintro (rfl | rfl)
    · exact .position
    · exact .fromEnd

theorem names_bool {truth : Bool} {id : String} :
    Names ids (.bool truth) id ↔ itemAt? ids (if truth then 1 else 0) = some id := by
  have place : (if truth then 1 else 0 : Int) = truth.toNat := by cases truth <;> rfl
  rw [place, itemAt?_natCast]
  constructor
  · rintro ⟨place, found, written⟩
    cases written with
    | truth same => rwa [same]
  · exact fun found => ⟨_, found, .truth rfl⟩

theorem idAt_ofJson : idAt (ids.map .text) (.ofJson index) = .ok value ↔
    ∃ id, Names ids index id ∧ value = .text id := by
  have position : ∀ number, idAt (ids.map .text) (.int number) = .ok value ↔
      ∃ id, itemAt? ids number = some id ∧ value = .text id := by
    intro number
    simp only [idAt, itemAt?_map]
    cases itemAt? ids number <;> simp [malformed, eq_comm]
  cases index with
  | int number => simp only [Value.ofJson, position, names_int]
  | bool truth => exact (position _).trans (by simp only [names_bool])
  | _ => simpa [Value.ofJson, idAt, malformed] using by rintro id ⟨_, -, ⟨⟩⟩

/-! ### Tables and tools -/

theorem exists_targets {members : List (String × Json)} {results : List (Value × Value)}
    (read : List.Forall₂ (fun entry result =>
      (do return (entry.1, ← idAt (ids.map .text) entry.2) : Except Error (Value × Value)) = .ok result)
        (Value.ofMembers members) results) :
    ∃ targets : Entries String String, .map results = Value.ofTable (targets.mapValues .text) ∧
      targets.keys = Entries.keys members ∧
      List.Forall₂ (fun member target => member.1 = target.1 ∧ Names ids member.2 target.2)
        members targets := by
  induction members generalizing results with
  | nil =>
    cases read
    exact ⟨[], rfl, rfl, .nil⟩
  | cons member members ih =>
    obtain ⟨name, index⟩ := member
    cases read with
    | cons first rest =>
      obtain ⟨value, found, same⟩ := bind_eq_ok.mp first
      obtain ⟨id, named, rfl⟩ := idAt_ofJson.mp found
      obtain rfl := pure_eq_ok.mp same
      obtain ⟨targets, written, keys, each⟩ := ih rest
      have entries := Value.map.inj written
      refine ⟨(name, id) :: targets, ?_, congrArg (name :: ·) keys, .cons ⟨rfl, named⟩ each⟩
      exact congrArg (fun entries => Value.map ((.text name, .text id) :: entries)) entries

theorem tableOf_of_idTable {table : Json} {found : Value} {targets : Entries String String}
    (distinct : table.HasDistinctKeys) (read : idTable (ids.map .text) (.ofJson table) = .ok found)
    (valid : Schema.table text found = .valid targets) : TableOf ids table targets := by
  unfold idTable at read
  split at read
  next =>
    split at read
    next entries given =>
      obtain ⟨results, each, same⟩ := bind_eq_ok.mp read
      obtain rfl := pure_eq_ok.mp same
      cases distinct with
      | object keys members =>
        obtain rfl := Value.map.inj given
        obtain ⟨own, written, same, each⟩ := exists_targets (mapM_eq_ok.mp each)
        have passed : Schema.table text (Value.ofTable (own.mapValues .text)) = .valid own :=
          table_ofTable (same ▸ keys) fun value => rfl
        rw [written, passed] at valid
        obtain rfl := Checked.valid.inj valid
        exact .object rfl each
      | _ => simp [Value.ofJson] at given
    next => simp at read
  next absent =>
    obtain rfl := Except.ok.inj read
    obtain rfl : [] = targets := Checked.valid.inj valid
    exact .absent (Bool.eq_false_iff.mpr absent)

theorem hasDistinctKeys_of_member? {found : Json} (distinct : json.HasDistinctKeys)
    (known : json.member? key = some found) : found.HasDistinctKeys := by
  cases distinct with
  | object keys members => exact members _ (Entries.mem_of_get? known)
  | _ => simp [Json.member?] at known

theorem hasDistinctKeys_memberOrNull (distinct : json.HasDistinctKeys) (key : String) :
    (memberOrNull json key).HasDistinctKeys := by
  unfold memberOrNull
  cases known : json.member? key with
  | none => exact .null
  | some found => exact hasDistinctKeys_of_member? distinct known

theorem readAs_of_readTool {item : Json} {tool : Tool} (distinct : item.HasDistinctKeys)
    (known : item.member? "id" = some (.text tool.id))
    (read : readTool (ids.map .text) (.ofJson item) = .ok tool) : ReadAs ids item tool := by
  have given : member (.ofJson item) "id" = .ok (.text tool.id) := member_ofJson.mpr ⟨_, known, rfl⟩
  obtain ⟨-, ⟨mapping, first, mapped⟩, locals, second, named⟩ := readTool_eq_ok given read
  rw [get_ofJson] at first second
  exact ⟨known, tableOf_of_idTable (hasDistinctKeys_memberOrNull distinct _) first mapped,
    tableOf_of_idTable (hasDistinctKeys_memberOrNull distinct _) second named⟩

/-! ### Artifacts -/

theorem ids_of_tools {items : List Json} {known ids : List Value} {tools : List Tool}
    (named : List.Forall₂ (fun item id => member (.ofJson item) "id" = .ok id) items ids)
    (made : List.Forall₂ (fun item tool => readTool known (.ofJson item) = .ok tool) items tools) :
    ids = (tools.map Tool.id).map .text ∧
      List.Forall₂ (fun item tool => item.member? "id" = some (.text tool.id)) items tools := by
  induction named generalizing tools with
  | nil =>
    cases made
    exact ⟨rfl, .nil⟩
  | cons first _ ih =>
    cases made with
    | cons read rest =>
      obtain ⟨same, each⟩ := ih rest
      obtain ⟨found, given, rfl⟩ := member_ofJson.mp first
      obtain rfl := text_ofJson.mp (readTool_eq_ok first read).1
      exact ⟨congrArg (_ :: ·) same, .cons given each⟩

/-- What a program is read from: the data of the text, with a list of tools that are read one by one, and
the index of the entry tool. Of tools with one id the last is kept. -/
structure ReadFrom (content : String) (program : Program) (json : Json) (items : List Json)
    (ids : List String) (tools : List Tool) (index : Json) : Prop where
  parsed : Json.parse content = .ok json
  lists : Lists json items ids
  made : List.Forall₂ (ReadAs ids) items tools
  kept : program.tools = byId tools
  placed : json.member? "entry" = some index
  entry : Names ids index program.entry

theorem exists_readFrom {content : String} (read : disassemble content = .ok program) :
    ∃ json items ids tools index, ReadFrom content program json items ids tools index := by
  unfold disassemble at read
  split at read
  next => simp at read
  next => simp at read
  next json parsed =>
    split at read
    next =>
      obtain ⟨listed, entries, values, tools, entry, given, cut, named, made,
        ⟨position, placed, entered⟩, own, same⟩ := ofValue_eq_ok read
      obtain ⟨listed, tooled, rfl⟩ := member_ofJson.mp given
      obtain ⟨item, known, own'⟩ := exists_left_of_forall₂ named (mem_of_idAt entered)
      obtain ⟨items, rfl, rfl⟩ := list_of_parts cut known own'
      rw [List.forall₂_map_left_iff] at named made
      obtain ⟨rfl, known⟩ := ids_of_tools named made
      obtain ⟨index, indexed, rfl⟩ := member_ofJson.mp placed
      obtain ⟨id, leads, rfl⟩ := idAt_ofJson.mp entered
      obtain rfl := Checked.valid.inj own
      have distinct : ∀ item ∈ items, item.HasDistinctKeys := by
        cases hasDistinctKeys_of_member? (Json.hasDistinctKeys_of_parse parsed) tooled with
        | list each => exact each
      have each := forall₂_of_mem made fun item member _ _ read => And.intro (distinct item member) read
      refine ⟨json, items, tools.map Tool.id, tools, index, parsed,
        ⟨tooled, List.forall₂_map_right_iff.mpr known⟩, ?_, same, indexed, leads⟩
      exact List.Forall₂.mp (fun _ _ known read => readAs_of_readTool read.1 known read.2) known each
    next => simp at read

/-- What stands where an index is expected: the entry, and the values in the tables of the tools. -/
inductive IsIndex (json : Json) (items : List Json) : Json → Prop where
  | entry {index : Json} (given : json.member? "entry" = some index) : IsIndex json items index
  | mapping {item index : Json} {members : List (String × Json)} {name : String} (listed : item ∈ items)
      (given : item.member? "toolMapping" = some (.object members)) (member : (name, index) ∈ members) :
      IsIndex json items index
  | locals {item index : Json} {members : List (String × Json)} {name : String} (listed : item ∈ items)
      (given : item.member? "localTools" = some (.object members)) (member : (name, index) ∈ members) :
      IsIndex json items index

theorem TableOf.names {table : Json} {targets : Entries String String} (read : TableOf ids table targets)
    {members : List (String × Json)} (given : table = .object members) {name : String}
    (member : (name, index) ∈ members) : ∃ id, Names ids index id := by
  subst given
  cases read with
  | absent absent =>
    cases members with
    | nil => cases member
    | cons first rest => cases absent
  | object given each =>
    obtain rfl := Json.object.inj given
    obtain ⟨target, -, -, named⟩ := exists_right_of_forall₂ each member
    exact ⟨target.2, named⟩

theorem ReadFrom.names {content : String} {items : List Json} {tools : List Tool} {entry : Json}
    (origin : ReadFrom content program json items ids tools entry) (stands : IsIndex json items index) :
    ∃ id, Names ids index id := by
  cases stands with
  | entry given =>
    obtain rfl := Option.some.inj (origin.placed.symm.trans given)
    exact ⟨program.entry, origin.entry⟩
  | mapping listed given member =>
    obtain ⟨tool, -, read⟩ := exists_right_of_forall₂ origin.made listed
    exact read.mapping.names (by rw [memberOrNull, given, Option.getD_some]) member
  | locals listed given member =>
    obtain ⟨tool, -, read⟩ := exists_right_of_forall₂ origin.made listed
    exact read.locals.names (by rw [memberOrNull, given, Option.getD_some]) member

theorem Lists.unique {items others : List Json} {otherIds : List String} (one : Lists json items ids)
    (two : Lists json others otherIds) : items = others ∧ ids = otherIds := by
  obtain rfl := Json.list.inj (Option.some.inj (one.tools.symm.trans two.tools))
  refine ⟨rfl, ?_⟩
  have functional : Relator.RightUnique fun (item : Json) id => item.member? "id" = some (.text id) :=
    fun _ _ _ first second => Json.text.inj (Option.some.inj (first.symm.trans second))
  exact functional.forall₂ one.ids two.ids

/-- Every index in an artifact that is read names a listed tool, and leads to its id. An artifact with an
index that names none is refused, if none of its tables is stray. -/
theorem positions_name_tools (content : String) :
    (∀ program, disassemble content = .ok program →
      ∃ json items ids tools index, ReadFrom content program json items ids tools index) ∧
      ∀ json items ids index, Json.parse content = .ok json → Lists json items ids →
        IsIndex json items index → (∀ id, ¬ Names ids index id) →
        (∀ table, ¬ StrayAt (.ofJson json) table) →
        ∃ error, disassemble content = .error error ∧ error.OfArtifact := by
  refine ⟨fun program => exists_readFrom, ?_⟩
  intro json items ids index parsed lists stands nameless straight
  cases read : disassemble content with
  | ok program =>
    obtain ⟨other, others, otherIds, tools, entry, origin⟩ := exists_readFrom read
    obtain rfl := Except.ok.inj (origin.parsed.symm.trans parsed)
    obtain ⟨rfl, rfl⟩ := origin.lists.unique lists
    obtain ⟨id, named⟩ := origin.names stands
    exact absurd named (nameless id)
  | error error =>
    refine ⟨error, rfl, ?_⟩
    by_contra other
    cases leaks_disassemble.mp ⟨read, other⟩ with
    | digits huge => simp [parsed] at huge
    | table again kind stray =>
      obtain rfl := Except.ok.inj (again.symm.trans parsed)
      exact straight _ stray

/-- A table in which the second of two tools refers to itself, with a truth value and from the end. -/
def loops : Json := .object [("x", .bool true), ("y", .int (-1))]

theorem parse_loops (number : Int) (writable : (crooked (.int number) loops).isPrintable = true) :
    Json.parse ((crooked (.int number) loops).render layout) = .ok (crooked (.int number) loops) := by
  refine parse_crooked (.int number) (.object (by decide) ?_) writable
  simp only [List.forall_mem_cons]
  exact ⟨.bool _, .int _, by simp⟩

/-- The last tool is the entry of an artifact that counts from the end, and an index beyond the list is
refused. -/
theorem crooked_positions :
    (∃ program, disassemble ((crooked (.int (-1)) loops).render layout) = .ok program ∧
      program.entry = "b" ∧ ∃ json items ids tools index,
        ReadFrom ((crooked (.int (-1)) loops).render layout) program json items ids tools index) ∧
      ∃ error, disassemble ((crooked (.int 2) loops).render layout) = .error error ∧
        error.OfArtifact := by
  constructor
  · obtain ⟨program, read, entry⟩ : ∃ program, ofValue (.ofJson (crooked (.int (-1)) loops)) = .ok program ∧
        program.entry = "b" := ⟨_, rfl, rfl⟩
    have read : disassemble ((crooked (.int (-1)) loops).render layout) = .ok program := by
      rw [disassemble, parse_loops _ (by decide +kernel)]
      exact read
    exact ⟨program, read, entry, (positions_name_tools _).1 program read⟩
  · have lists : Lists (crooked (.int 2) loops) _ ["a", "b"] := ⟨rfl, .cons rfl (.cons rfl .nil)⟩
    have nameless : ∀ id, ¬ Names ["a", "b"] (.int 2) id := by
      intro id
      rw [names_int]
      exact nofun
    have tables : HasTables (crooked (.int 2) loops) := by
      rintro items ⟨⟩
      simp only [List.forall_mem_cons]
      exact ⟨⟨.inl rfl, .inl rfl⟩, ⟨.inr ⟨_, rfl⟩, .inl rfl⟩, by simp⟩
    exact (positions_name_tools _).2 (crooked (.int 2) loops) _ ["a", "b"] (.int 2)
      (parse_loops _ (by decide +kernel)) lists (.entry rfl) nameless tables.not_strayAt

end Artifact
end ToolGraph
