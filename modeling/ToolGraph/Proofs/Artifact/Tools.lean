import ToolGraph.Proofs.Artifact.Reading
import ToolGraph.Proofs.Tool

/-!
The tools in an artifact. The positions in their tables lead back to the ids they were written for, and
what is left out is what a tool has by default.
-/
namespace ToolGraph

namespace Schema

/-- What is given for a field passes; where nothing is given there is a default. -/
def Passes {α : Type} (check : Value → Checked α) (fallback : Option α) (value : α) :
    (given : Option Value) → Prop
  | some found => check found = .valid value
  | none => fallback = some value

theorem field_of_passes {α : Type} {entries : List (Value × Value)} {name : String}
    {names : List String} {given : Option Value} {check : Value → Checked α} {fallback : Option α}
    {value : α} (first : Value.entry? entries (.text name) = given)
    (others : ∀ other ∈ names, Value.entry? entries (.text other) = none)
    (passes : Passes check fallback value given) :
    field entries (name :: names) check fallback = .valid value := by
  cases given with
  | none =>
    obtain rfl : fallback = some value := passes
    refine field_of_missing (fun other member => ?_) check value
    rcases List.mem_cons.mp member with rfl | later
    · exact first
    · exact others other later
  | some found =>
    rw [field_of_entry first, Checked.within_eq_valid]
    exact passes

theorem passes_text (value : String) :
    Passes text (some "") value
      ((if value.isEmpty then none else some (Json.text value)).map .ofJson) := by
  split
  next empty => exact congrArg some (String.isEmpty_iff.mp empty).symm
  next => rfl

theorem passes_optional {α : Type} {form : α → Json} {check : Value → Checked α} (value : Option α)
    (passes : ∀ value, optional check (.ofJson (form value)) = .valid (some value)) :
    Passes (optional check) (some none) value ((value.map form).map .ofJson) := by
  cases value with
  | none => rfl
  | some value => exact passes value

theorem passes_texts (texts : List String) :
    Passes (sequence text) (some []) texts
      ((if texts.isEmpty then none else some (Json.list (texts.map .text))).map .ofJson) := by
  split
  next empty => exact congrArg some (List.isEmpty_iff.mp empty).symm
  next =>
    show Checked.all _ = .valid texts
    rw [Checked.all_eq_valid, List.forall₂_iff_get]
    refine ⟨by simp [Value.ofItems_eq], fun place _ _ => ?_⟩
    simp [Value.ofItems_eq, Value.ofJson, text]

theorem table_ofTable {α : Type} {form : α → Value} {check : Value → Checked α}
    {table : Entries String α} (distinct : (Entries.keys table).Nodup)
    (passes : ∀ value, check (form value) = .valid value) :
    Schema.table check (Value.ofTable (Entries.mapValues form table)) = .valid table := by
  have entries : List.Forall₂ (fun entry value => entry = .valid value)
      (((Entries.mapValues form table).map (fun entry => (Value.text entry.1, entry.2))).map
        (fun entry => Prod.mk <$> key entry.1 <*> .within (keyStep entry.1) (check entry.2)))
      table := by
    clear distinct
    induction table with
    | nil => exact .nil
    | cons entry table ih =>
      refine .cons ?_ ih
      simp [passes, key, text]
  rw [Value.ofTable, Schema.table, Checked.map_eq_valid]
  exact ⟨table, Checked.all_eq_valid.mpr entries, Entries.ofPairs_of_distinct distinct⟩

end Schema

namespace Artifact
open Schema Program

/-! ### Positions -/

theorem itemAt?_idxOf {ids : List String} {id : String} (member : id ∈ ids) :
    itemAt? (ids.map Value.text) (ids.idxOf id) = some (.text id) := by
  rw [itemAt?_natCast, List.getElem?_map, List.getElem?_idxOf member, Option.map_some]

theorem idAt_idxOf {ids : List String} {id : String} (member : id ∈ ids) :
    idAt (ids.map Value.text) (.int (ids.idxOf id)) = .ok (.text id) := by
  simp only [idAt, itemAt?_idxOf member]

theorem idTable_tableJson {ids : List String} {table : Entries String String}
    (known : ∀ entry ∈ table, entry.2 ∈ ids) :
    idTable (ids.map Value.text)
        (.ofJson (Tool.tableJson (fun target => .int (ids.idxOf target)) table)) =
      .ok (Value.ofTable (Entries.mapValues .text table)) := by
  have entries : (table.map fun entry => (Value.text entry.1, Value.int (ids.idxOf entry.2))).mapM
        (fun entry => do return (entry.1, ← idAt (ids.map Value.text) entry.2)) =
      (.ok (table.map fun entry => (.text entry.1, .text entry.2)) :
        Except Error (List (Value × Value))) := by
    rw [mapM_eq_ok]
    induction table with
    | nil => exact .nil
    | cons entry table ih =>
      refine .cons ?_ (ih fun other member => known other (List.mem_cons_of_mem _ member))
      rw [idAt_idxOf (known entry List.mem_cons_self)]
      rfl
  have form : Value.ofJson (Tool.tableJson (fun target => .int (ids.idxOf target)) table) =
      .map (table.map fun entry => (.text entry.1, .int (ids.idxOf entry.2))) := by
    rw [Tool.tableJson, Value.ofJson_object, Value.ofTable, Entries.mapValues, List.map_map,
      List.map_map]
    rfl
  have ids : Value.ofTable (Entries.mapValues .text table) =
      .map (table.map fun entry => (.text entry.1, .text entry.2)) := by
    rw [Value.ofTable, Entries.mapValues, List.map_map]
    rfl
  rw [form, ids]
  cases table with
  | nil => rfl
  | cons entry table =>
    rw [idTable, if_pos (by rfl)]
    simp only [entries]
    rfl

/-! ### Tools -/

theorem passes_internalPrompt (value : Option Bool) :
    Passes (optional bool) (some none) value
      ((some ((value.map Json.bool).getD .null)).map .ofJson) := by
  cases value <;> rfl

theorem passes_arguments {tool : Tool} {arguments : List (String × Json)} (distinct : tool.Distinct)
    (known : tool.argumentsMember? = some arguments) :
    Passes (optional (Schema.table any)) (some none) tool.exchanged.arguments
      ((Entries.get? arguments "arguments").map .ofJson) := by
  rw [Tool.exchanged_of_isWritable (Tool.isWritable_iff_argumentsMember?.mpr ⟨_, known⟩)]
  rcases Tool.argumentsMember?_eq known with ⟨absent, rfl⟩ | ⟨table, json, present, form, rfl⟩
  · show some none = some (tool.arguments.map _)
    rw [absent]
    rfl
  · have keys := distinct.arguments table present
    obtain ⟨members, rfl, -, values⟩ := Value.toJson?_ofTable keys form
    have checked : Schema.table any (.ofJson (.object members)) =
        .valid (Entries.mapValues Value.exchanged table) := by
      rw [← Entries.keys_mapValues Value.exchanged] at keys
      rw [Value.ofJson_object, values]
      generalize Entries.mapValues Value.exchanged table = values at keys
      have same : Entries.mapValues id values = values := List.map_id _
      have passed : Schema.table any (Value.ofTable (Entries.mapValues id values)) = .valid values :=
        table_ofTable keys fun value => rfl
      rwa [same] at passed
    show (Schema.table any (.ofJson (.object members))).map some = .valid (tool.arguments.map _)
    rw [checked, present]
    rfl

theorem check_membersWith {target : String → Json} {tool : Tool} {arguments : List (String × Json)}
    {entries : List (Value × Value)} (distinct : tool.Distinct)
    (known : tool.argumentsMember? = some arguments)
    (mapping : Passes (Schema.table text) (some []) tool.toolMapping
      (Value.entry? entries (.text "toolMapping")))
    (locals : Passes (Schema.table text) (some []) tool.localTools
      (Value.entry? entries (.text "localTools")))
    (others : ∀ key, key ≠ "toolMapping" → key ≠ "localTools" → Value.entry? entries (.text key) =
      (Entries.get? (tool.membersWith target arguments) key).map Value.ofJson) :
    Tool.check (.map entries) = .valid tool.exchanged := by
  simp only [Tool.get?_membersWith known] at others
  rw [Tool.check_eq_valid]
  refine ⟨?name, ?description, ?maxTokens, ?modelName, ?cache, ?jsonResponse, ?temperature,
    ?internalPrompt, ?arguments, ?tools, ?instructions, ?id, ?toolMapping, ?localTools, ?origin,
    ?workingDir⟩
  case name =>
    refine field_of_passes (others "name" (by decide) (by decide)) (by simp) ?_
    rw [Tool.memberAt?]
    exact passes_text _
  case description =>
    refine field_of_passes (others "description" (by decide) (by decide)) (by simp) ?_
    rw [Tool.memberAt?]
    exact passes_text _
  case maxTokens =>
    refine field_of_passes (others "maxTokens" (by decide) (by decide))
      (by simp [others, Tool.memberAt?]) ?_
    rw [Tool.memberAt?]
    exact passes_optional tool.maxTokens fun value => rfl
  case modelName =>
    refine field_of_passes (others "modelName" (by decide) (by decide))
      (by simp [others, Tool.memberAt?]) ?_
    rw [Tool.memberAt?]
    rfl
  case cache =>
    refine field_of_passes (others "cache" (by decide) (by decide)) (by simp) ?_
    rw [Tool.memberAt?]
    exact passes_optional tool.cache fun value => rfl
  case jsonResponse =>
    refine field_of_passes (others "jsonResponse" (by decide) (by decide))
      (by simp [others, Tool.memberAt?]) ?_
    rw [Tool.memberAt?]
    exact passes_optional tool.jsonResponse fun value => rfl
  case temperature =>
    refine field_of_passes (others "temperature" (by decide) (by decide)) (by simp) ?_
    rw [Tool.memberAt?]
    exact passes_optional tool.temperature fun value => rfl
  case internalPrompt =>
    refine field_of_passes (others "internalPrompt" (by decide) (by decide))
      (by simp [others, Tool.memberAt?]) ?_
    rw [Tool.memberAt?]
    exact passes_internalPrompt tool.internalPrompt
  case arguments =>
    refine field_of_passes (others "arguments" (by decide) (by decide)) (by simp) ?_
    rw [Tool.memberAt?]
    exact passes_arguments distinct known
  case tools =>
    refine field_of_passes (others "tools" (by decide) (by decide)) (by simp) ?_
    rw [Tool.memberAt?]
    exact passes_texts _
  case instructions =>
    refine field_of_passes (others "instructions" (by decide) (by decide)) (by simp) ?_
    rw [Tool.memberAt?]
    rfl
  case id =>
    refine field_of_passes (others "id" (by decide) (by decide)) (by simp) ?_
    rw [Tool.memberAt?]
    rfl
  case toolMapping =>
    exact field_of_passes rfl (by simp [others, Tool.memberAt?]) mapping
  case localTools =>
    exact field_of_passes rfl (by simp [others, Tool.memberAt?]) locals
  case origin =>
    refine field_of_passes (others "source" (by decide) (by decide)) (by simp) ?_
    rw [Tool.memberAt?]
    rfl
  case workingDir =>
    refine field_of_passes (others "workingDir" (by decide) (by decide))
      (by simp [others, Tool.memberAt?]) ?_
    rw [Tool.memberAt?]
    rfl

theorem readTool_members {ids : List String} {tool : Tool} {members : List (String × Json)}
    (distinct : tool.Distinct) (closed : ∀ target ∈ tool.targets, target ∈ ids)
    (form : tool.members? (fun target => .int (ids.idxOf target)) = some members) :
    readTool (ids.map Value.text) (.ofJson (.object members)) = .ok tool.exchanged := by
  obtain ⟨arguments, known, rfl⟩ := Option.map_eq_some_iff.mp form
  generalize written : (fun target => Json.int (ids.idxOf target)) = target
  have table : ∀ {table : Entries String String}, (∀ entry ∈ table, entry.2 ∈ ids) →
      idTable (ids.map Value.text) (.ofJson (Tool.tableJson target table)) =
        .ok (Value.ofTable (Entries.mapValues .text table)) := by
    subst written
    exact idTable_tableJson
  have lookup : ∀ key, Value.entry? (Value.ofMembers (tool.membersWith target arguments)) (.text key) =
      (Entries.get? (tool.membersWith target arguments) key).map .ofJson :=
    Value.entry?_ofMembers _
  have mapping : idTable (ids.map Value.text)
      ((Value.ofJson (.object (tool.membersWith target arguments))).get "toolMapping") =
        .ok (Value.ofTable (Entries.mapValues .text tool.toolMapping)) := by
    show idTable _ ((Value.entry? (Value.ofMembers _) (.text "toolMapping")).getD .null) = _
    rw [lookup, Tool.get?_membersWith known, Tool.memberAt?]
    split
    next empty =>
      rw [List.isEmpty_iff.mp empty]
      rfl
    next =>
      exact table fun entry member => closed entry.2 (Tool.mem_targets.mpr (.inl ⟨entry.1, member⟩))
  have locals : idTable (ids.map Value.text)
      ((Value.ofJson (.object (tool.membersWith target arguments))).get "localTools") =
        .ok (Value.ofTable (Entries.mapValues .text tool.localTools)) := by
    show idTable _ ((Value.entry? (Value.ofMembers _) (.text "localTools")).getD .null) = _
    rw [lookup, Tool.get?_membersWith known, Tool.memberAt?]
    exact table fun entry member => closed entry.2 (Tool.mem_targets.mpr (.inr ⟨entry.1, member⟩))
  unfold readTool
  rw [mapping, locals]
  simp only [bind, Except.bind, Value.ofJson]
  generalize put : Value.putEntry (Value.putEntry (Value.ofMembers (tool.membersWith target arguments))
    (.text "toolMapping") _) (.text "localTools") _ = entries
  have others : ∀ key, key ≠ "toolMapping" → key ≠ "localTools" →
      Value.entry? entries (.text key) =
        (Entries.get? (tool.membersWith target arguments) key).map Value.ofJson := by
    intro key one two
    rw [← put, Value.entry?_putEntry, Value.entry?_putEntry, if_neg two.symm, if_neg one.symm, lookup]
  have mapping : Value.entry? entries (.text "toolMapping") =
      some (Value.ofTable (Entries.mapValues .text tool.toolMapping)) := by
    simp [← put, Value.entry?_putEntry]
  have locals : Value.entry? entries (.text "localTools") =
      some (Value.ofTable (Entries.mapValues .text tool.localTools)) := by
    simp [← put, Value.entry?_putEntry]
  have passed := check_membersWith distinct known
    (mapping ▸ table_ofTable distinct.mapping fun value => rfl)
    (locals ▸ table_ofTable distinct.locals fun value => rfl) others
  rw [passed]
  rfl

end Artifact
end ToolGraph
