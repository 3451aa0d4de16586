import ToolGraph.Proofs.Artifact.Reading
import ToolGraph.Proofs.Exchange
import ToolGraph.Proofs.Failing
import ToolGraph.Proofs.Json.Reading

/-!
What the reader of artifacts fails with. It refuses what is not an artifact, whatever shape the data has,
but for one: a table that neither is an object nor counts as absent. That failure, integers beyond all
bounds and files that hold no text are not reported as failures of an artifact.
-/
namespace ToolGraph

def Error.OfArtifact (error : Error) : Prop := error.class? = some .assemble

/-- A failure that is reported as something else. -/
def Leaks {α : Type} (result : Except Error α) (error : Error) : Prop :=
  result = .error error ∧ ¬ error.OfArtifact

section leaks
variable {α β : Type} {error : Error}

theorem leaks_bind {first : Except Error α} {next : α → Except Error β} :
    Leaks (first >>= next) error ↔
      Leaks first error ∨ ∃ value, first = .ok value ∧ Leaks (next value) error := by
  simp only [Leaks, bind_eq_error]
  grind

theorem leaks_mapM {f : α → Except Error β} {items : List α} :
    Leaks (items.mapM f) error ↔ ∃ before item after, items = before ++ item :: after ∧
      (∀ other ∈ before, ∃ result, f other = .ok result) ∧ Leaks (f item) error := by
  simp only [Leaks, mapM_eq_error]
  grind

theorem not_leaks {result : Except Error α} (fails : FailsAs Error.OfArtifact result) :
    ¬ Leaks result error := fun leaks => leaks.2 (fails error leaks.1)

/-- A failure of another kind comes after a step that has none. -/
theorem leaks_next {first : Except Error α} {next : α → Except Error β}
    (fails : FailsAs Error.OfArtifact first) :
    Leaks (first >>= next) error ↔ ∃ value, first = .ok value ∧ Leaks (next value) error := by
  rw [leaks_bind, or_iff_right (not_leaks fails)]

end leaks

namespace Artifact

/-! ### Parts of the data -/

theorem ofArtifact_artifact (fault : ArtifactFault) : (Error.artifact fault).OfArtifact := rfl

theorem ofArtifact_malformed {α : Type} (fault : ShapeFault) :
    FailsAs Error.OfArtifact (malformed fault : Except Error α) := .error rfl

theorem ofArtifact_member (value : Value) (key : String) :
    FailsAs Error.OfArtifact (member value key) := by
  unfold member
  split
  · split
    · exact .ok _
    · exact ofArtifact_malformed _
  all_goals exact ofArtifact_malformed _

theorem ofArtifact_parts (value : Value) : FailsAs Error.OfArtifact (parts value) := by
  unfold parts
  split
  all_goals first | exact .ok _ | exact ofArtifact_malformed _

theorem ofArtifact_idAt (ids : List Value) (position : Value) :
    FailsAs Error.OfArtifact (idAt ids position) := by
  simp only [idAt]
  split
  case h_3 => exact ofArtifact_malformed _
  all_goals
    split
    · exact .ok _
    · exact ofArtifact_malformed _

/-! ### Tables -/

/-- A table that is no object, and does not count as absent either. -/
def IsStray (table : Value) : Prop := table.isPresent = true ∧ ∀ entries, table ≠ .map entries

def strayTable (table : Value) : Error := .bare (.shape (.noMembers table.kindName))

theorem idTable_of_stray {table : Value} (stray : IsStray table) (ids : List Value) :
    idTable ids table = .error (strayTable table) := by
  unfold idTable
  rw [if_pos stray.1]
  split
  next entries => exact absurd rfl (stray.2 entries)
  next => rfl

theorem leaks_idTable {ids : List Value} {table : Value} {error : Error} :
    Leaks (idTable ids table) error ↔ IsStray table ∧ error = strayTable table := by
  constructor
  · intro leaks
    unfold idTable at leaks
    split at leaks
    next present =>
      split at leaks
      next entries =>
        refine absurd leaks (not_leaks (.bind (.mapM fun entry _ => ?_) fun _ _ => .pure _))
        exact .bind (ofArtifact_idAt _ _) fun _ _ => .pure _
      next other => exact ⟨⟨present, other⟩, (Except.error.inj leaks.1).symm⟩
    next => exact absurd leaks (not_leaks (.ok _))
  · rintro ⟨stray, rfl⟩
    exact ⟨idTable_of_stray stray ids, by simp [Error.OfArtifact, strayTable, Error.class?]⟩

/-! ### Tools -/

/-- A table of a tool is stray, and the one before it is read. -/
inductive StrayIn (ids : List Value) (entry : Value) : Value → Prop where
  | mapping (stray : IsStray (entry.get "toolMapping")) : StrayIn ids entry (entry.get "toolMapping")
  | localTools {mapping : Value} (read : idTable ids (entry.get "toolMapping") = .ok mapping)
      (stray : IsStray (entry.get "localTools")) : StrayIn ids entry (entry.get "localTools")

theorem leaks_readTool {ids : List Value} {entry : Value} {error : Error} :
    Leaks (readTool ids entry) error ↔ ∃ table, StrayIn ids entry table ∧ error = strayTable table := by
  unfold readTool
  rw [leaks_bind, leaks_idTable]
  constructor
  · rintro (⟨stray, rfl⟩ | ⟨mapping, read, leaks⟩)
    · exact ⟨_, .mapping stray, rfl⟩
    · rcases leaks_bind.mp leaks with first | ⟨localTools, -, last⟩
      · obtain ⟨stray, rfl⟩ := leaks_idTable.mp first
        exact ⟨_, .localTools read stray, rfl⟩
      · refine absurd last (not_leaks ?_)
        simp only
        split
        · exact .pure _
        · exact .throw rfl
  · rintro ⟨table, ⟨stray⟩ | ⟨read, stray⟩, rfl⟩
    · exact .inl ⟨stray, rfl⟩
    · exact .inr ⟨_, read, leaks_bind.mpr (.inl (leaks_idTable.mpr ⟨stray, rfl⟩))⟩

/-! ### Artifacts -/

/-- The data lists tools with ids, and the first table in them that cannot be read is stray. -/
inductive StrayAt (data : Value) (table : Value) : Prop where
  | intro {listed : Value} {entries ids before after : List Value} {entry : Value}
      (given : member data "tools" = .ok listed) (cut : parts listed = .ok entries)
      (named : entries.mapM (fun entry => member entry "id") = .ok ids)
      (split : entries = before ++ entry :: after)
      (fine : ∀ other ∈ before, ∃ tool, readTool ids other = .ok tool)
      (stray : StrayIn ids entry table)

theorem leaks_ofValue {data : Value} {error : Error} :
    Leaks (ofValue data) error ↔ ∃ table, StrayAt data table ∧ error = strayTable table := by
  unfold ofValue
  simp only [leaks_next (ofArtifact_member _ _), leaks_next (ofArtifact_parts _),
    leaks_next (.mapM fun entry _ => ofArtifact_member entry "id")]
  constructor
  · rintro ⟨listed, given, entries, cut, ids, named, leaks⟩
    rcases leaks_bind.mp leaks with first | ⟨tools, -, last⟩
    · obtain ⟨before, entry, after, split, fine, leaks⟩ := leaks_mapM.mp first
      obtain ⟨table, stray, rfl⟩ := leaks_readTool.mp leaks
      exact ⟨table, ⟨given, cut, named, split, fine, stray⟩, rfl⟩
    · refine absurd last (not_leaks (.bind (ofArtifact_member _ _) fun name _ =>
        .bind (ofArtifact_member _ _) fun entry _ => .bind (ofArtifact_idAt _ _) fun entry _ => ?_))
      split
      · exact .pure _
      all_goals exact .throw rfl
  · rintro ⟨table, ⟨given, cut, named, split, fine, stray⟩, rfl⟩
    have first := leaks_mapM.mpr ⟨_, _, _, split, fine, leaks_readTool.mpr ⟨table, stray, rfl⟩⟩
    exact ⟨_, given, _, cut, _, named, leaks_bind.mpr (.inl first)⟩

/-- What makes the reader of a text fail in another way than as for an artifact. -/
inductive Strays (content : String) : Error → Prop where
  /-- An integer is beyond all bounds. -/
  | digits (parsed : Json.parse content = .error .hugeInteger) :
      Strays content (.bare (.json .hugeInteger))
  /-- A table is stray. -/
  | table {json : Json} {table : Value} (parsed : Json.parse content = .ok json)
      (kind : (json.member? "kind").bind Json.text? = some Document.artifactKind)
      (stray : StrayAt (.ofJson json) table) : Strays content (strayTable table)

theorem leaks_disassemble {content : String} {error : Error} :
    Leaks (disassemble content) error ↔ Strays content error := by
  constructor
  · intro leaks
    unfold disassemble at leaks
    split at leaks
    next => exact absurd leaks (not_leaks (.error rfl))
    next parsed =>
      obtain rfl := Except.error.inj leaks.1
      exact .digits parsed
    next json parsed =>
      split at leaks
      next kind =>
        obtain ⟨table, stray, rfl⟩ := leaks_ofValue.mp leaks
        exact .table parsed kind stray
      next => exact absurd leaks (not_leaks (.error rfl))
  · intro strays
    unfold disassemble
    cases strays with
    | digits parsed =>
      rw [parsed]
      exact ⟨rfl, by simp [Error.OfArtifact, Error.class?]⟩
    | table parsed kind stray =>
      rw [parsed]
      simp only [if_pos kind]
      exact leaks_ofValue.mpr ⟨_, stray, rfl⟩

theorem leaks_disassembleBytes {content : Bytes} {error : Error} :
    Leaks (disassembleBytes content) error ↔
      ∃ chars, Text.decodeDetected? content = some chars ∧ Strays (String.ofList chars) error := by
  unfold disassembleBytes
  split
  next chars decoded => simp [decoded, leaks_disassemble]
  next foreign => simp [foreign, not_leaks (.error (ofArtifact_artifact _))]

section json
variable {json : Json} {key : String} {value : Value}

def memberOrNull (json : Json) (key : String) : Json := (json.member? key).getD .null

def IsAbsent (table : Json) : Prop := (Value.ofJson table).isPresent = false

def IsStraight (item : Json) (key : String) : Prop :=
  IsAbsent (memberOrNull item key) ∨ ∃ members, memberOrNull item key = .object members

def HasTables (json : Json) : Prop :=
  ∀ items, json.member? "tools" = some (.list items) →
    ∀ item ∈ items, IsStraight item "toolMapping" ∧ IsStraight item "localTools"

theorem member_ofJson : member (.ofJson json) key = .ok value ↔
    ∃ found, json.member? key = some found ∧ value = .ofJson found := by
  cases json with
  | object members =>
    simp only [Value.ofJson, member, Value.entry?_ofMembers, Json.member?]
    cases Entries.get? members key with
    | none => simp [malformed]
    | some found => simp [eq_comm]
  | _ => simp [Value.ofJson, member, malformed, Json.member?]

theorem get_ofJson : (Value.ofJson json).get key = .ofJson (memberOrNull json key) := by
  cases json with
  | object members =>
    simp only [Value.ofJson, Value.get, Value.member?, Value.entry?_ofMembers, memberOrNull, Json.member?]
    cases Entries.get? members key <;> rfl
  | _ => rfl

theorem list_of_parts {listed : Json} {entries : List Value} {entry id : Value}
    (cut : parts (.ofJson listed) = .ok entries) (known : entry ∈ entries)
    (named : member entry "id" = .ok id) :
    ∃ items, listed = .list items ∧ entries = items.map .ofJson := by
  obtain ⟨inner, rfl, -⟩ := member_eq_ok named
  -- Keys and characters are texts, which have no members.
  cases listed with
  | list items => exact ⟨items, rfl, by rw [← Except.ok.inj cut, Value.ofItems_eq]⟩
  | object members =>
    rw [← Except.ok.inj cut, Value.ofMembers_eq] at known
    simp at known
  | text value =>
    rw [← Except.ok.inj cut] at known
    simp at known
  | _ => simp [Value.ofJson, parts, malformed] at cut

theorem IsStraight.not_isStray {item : Json} (straight : IsStraight item key) :
    ¬ IsStray ((Value.ofJson item).get key) := by
  rw [get_ofJson]
  rintro ⟨present, other⟩
  rcases straight with absent | ⟨members, table⟩
  · exact absurd present (Bool.eq_false_iff.mp absent)
  · exact other (Value.ofMembers members) (by rw [table, Value.ofJson])

theorem HasTables.not_strayAt (tables : HasTables json) (table : Value) :
    ¬ StrayAt (.ofJson json) table := by
  rintro @⟨_, entries, _, before, after, entry, given, cut, named, split, -, stray⟩
  obtain ⟨listed, tooled, rfl⟩ := member_ofJson.mp given
  have known : entry ∈ entries := split ▸ List.mem_append_cons_self
  obtain ⟨id, -, own⟩ := exists_right_of_forall₂ (mapM_eq_ok.mp named) known
  obtain ⟨items, rfl, rfl⟩ := list_of_parts cut known own
  obtain ⟨item, member, rfl⟩ := List.mem_map.mp known
  cases stray with
  | mapping stray => exact (tables items tooled item member).1.not_isStray stray
  | localTools _ stray => exact (tables items tooled item member).2.not_isStray stray

end json

/-! ### Readers -/

def crooked (entry table : Json) : Json :=
  .object [("kind", .text Document.artifactKind), ("name", .text "b"), ("entry", entry),
    ("tools", .list [.object [("id", .text "a")], .object [("id", .text "b"), ("toolMapping", table)]])]

theorem parse_crooked {entry table : Json} (first : entry.HasDistinctKeys) (second : table.HasDistinctKeys)
    (writable : (crooked entry table).isPrintable = true) :
    Json.parse ((crooked entry table).render layout) = .ok (crooked entry table) := by
  have tools : ∀ item ∈ [Json.object [("id", .text "a")],
      .object [("id", .text "b"), ("toolMapping", table)]], item.HasDistinctKeys := by
    simp only [List.forall_mem_cons]
    refine ⟨.object (by decide) ?_, .object (show ["id", "toolMapping"].Nodup by decide) ?_, by simp⟩
    · simp [Json.Proper.text]
    · simp [Json.Proper.text, second]
  have proper : (crooked entry table).HasDistinctKeys := by
    refine .object (show ["kind", "name", "entry", "tools"].Nodup by decide) ?_
    simp only [List.forall_mem_cons]
    exact ⟨.text _, .text _, first, .list tools, by simp⟩
  have read : Json.parse ((crooked entry table).render layout ++ "") = .ok (crooked entry table) :=
    Json.parse_render rfl proper writable (by simp)
  rwa [String.append_empty] at read

end Artifact
end ToolGraph
