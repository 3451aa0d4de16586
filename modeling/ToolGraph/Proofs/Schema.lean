import ToolGraph.Proofs.Entries
import ToolGraph.Tool.Check

/-! What it takes for data to pass a check, and what a check makes of it. -/
namespace ToolGraph

namespace Checked
variable {α β : Type}

@[simp] theorem map_eq_valid {f : α → β} {x : Checked α} {y : β} :
    f <$> x = .valid y ↔ ∃ a, x = .valid a ∧ f a = y := by
  cases x with
  | valid a =>
    change Checked.valid (f a) = .valid y ↔ _
    simp
  | invalid issues =>
    change Checked.invalid issues = .valid y ↔ _
    simp

@[simp] theorem seq_eq_valid {f : Checked (α → β)} {x : Checked α} {y : β} :
    f <*> x = .valid y ↔ ∃ g, f = .valid g ∧ ∃ a, x = .valid a ∧ g a = y := by
  cases f with
  | valid g =>
    cases x with
    | valid a =>
      change Checked.valid (g a) = .valid y ↔ _
      simp
    | invalid issues =>
      change Checked.invalid issues = .valid y ↔ _
      simp
  | invalid first =>
    cases x with
    | valid a =>
      change Checked.invalid first = .valid y ↔ _
      simp
    | invalid second =>
      change Checked.invalid (first ++ second) = .valid y ↔ _
      simp

@[simp] theorem within_eq_valid {step : Step} {x : Checked α} {y : α} :
    within step x = .valid y ↔ x = .valid y := by
  cases x <;> simp [within]

theorem all_eq_valid {checks : List (Checked α)} {values : List α} :
    all checks = .valid values ↔ List.Forall₂ (fun check value => check = .valid value) checks values := by
  induction checks generalizing values with
  | nil => cases values <;> simp [all]
  | cons check rest ih =>
    cases values with
    | nil => simp [all]
    | cons value others => simp [all, ih]

end Checked

namespace Schema

theorem field_of_entry {α : Type} {entries : List (Value × Value)} {name : String}
    {names : List String} {value : Value} (found : Value.entry? entries (.text name) = some value)
    (check : Value → Checked α) (fallback : Option α) :
    field entries (name :: names) check fallback = .within (.key name) (check value) := by
  simp [field, lookup?, found]

theorem field_of_missing {α : Type} {entries : List (Value × Value)} {names : List String}
    (missing : ∀ name ∈ names, Value.entry? entries (.text name) = none)
    (check : Value → Checked α) (fallback : α) :
    field entries names check (some fallback) = .valid fallback := by
  have none : lookup? entries names = none := by
    induction names with
    | nil => rfl
    | cons name names ih =>
      simp only [lookup?, missing name List.mem_cons_self]
      exact ih (fun other member => missing other (List.mem_cons_of_mem name member))
  simp [field, none]

theorem check_of_optional {α : Type} {check : Value → Checked α} {data : Value} {value : α}
    (valid : optional check data = .valid (some value)) : check data = .valid value := by
  unfold optional at valid
  split at valid
  next => simp at valid
  next =>
    obtain ⟨own, passed, same⟩ := Checked.map_eq_valid.mp valid
    exact Option.some.inj same ▸ passed

theorem exists_map_of_table {α : Type} {check : Value → Checked α} {data : Value}
    {checked : Entries String α} (valid : table check data = .valid checked) :
    ∃ entries, data = .map entries := by
  unfold table at valid
  split at valid
  next entries => exact ⟨entries, rfl⟩
  next => simp [Checked.issue] at valid

theorem mem_of_table_eq_valid {α : Type} {check : Value → Checked α}
    {entries : List (Value × Value)} {checked : Entries String α} {name : String} {value : α}
    (valid : table check (.map entries) = .valid checked) (member : (name, value) ∈ checked) :
    ∃ entry ∈ entries, check entry.2 = .valid value := by
  simp only [table, Checked.map_eq_valid, Checked.all_eq_valid] at valid
  obtain ⟨pairs, parts, rfl⟩ := valid
  have present : (name, value) ∈ pairs :=
    Entries.mem_of_get?_ofPairs (Entries.get?_of_mem (Entries.nodup_ofPairs pairs) member)
  clear member
  induction entries generalizing pairs with
  | nil =>
    cases parts
    simp at present
  | cons entry rest ih =>
    cases parts with
    | cons part parts =>
      rcases List.mem_cons.mp present with rfl | later
      · simp only [Checked.seq_eq_valid, Checked.map_eq_valid, Checked.within_eq_valid] at part
        obtain ⟨-, ⟨own, -, rfl⟩, found, passed, same⟩ := part
        obtain ⟨-, rfl⟩ := Prod.mk.inj same
        exact ⟨entry, List.mem_cons_self, passed⟩
      · obtain ⟨other, known, passed⟩ := ih _ parts later
        exact ⟨other, List.mem_cons_of_mem entry known, passed⟩

end Schema

namespace Tool
open Schema

theorem check_eq_valid {entries : List (Value × Value)} {tool : Tool} :
    check (.map entries) = .valid tool ↔
      field entries ["name"] text (some "") = .valid tool.name ∧
      field entries ["description"] text (some "") = .valid tool.description ∧
      field entries ["maxTokens", "max_tokens"] (optional whole) (some none) =
        .valid tool.maxTokens ∧
      field entries ["modelName", "model_name"] text (some defaultModel) = .valid tool.modelName ∧
      field entries ["cache"] (optional bool) (some none) = .valid tool.cache ∧
      field entries ["jsonResponse", "json_response"] (optional bool) (some none) =
        .valid tool.jsonResponse ∧
      field entries ["temperature"] (optional number) (some none) = .valid tool.temperature ∧
      field entries ["internalPrompt", "internal_prompt"] (optional bool) (some none) =
        .valid tool.internalPrompt ∧
      field entries ["arguments"] (optional (table any)) (some none) = .valid tool.arguments ∧
      field entries ["tools"] (sequence text) (some []) = .valid tool.tools ∧
      field entries ["instructions"] text (some "") = .valid tool.instructions ∧
      field entries ["id"] text none = .valid tool.id ∧
      field entries ["toolMapping", "tool_mapping"] (table text) (some []) =
        .valid tool.toolMapping ∧
      field entries ["localTools", "local_tools"] (table text) (some []) = .valid tool.localTools ∧
      field entries ["source"] checkOrigin (some ⟨"", 0⟩) = .valid tool.origin ∧
      field entries ["workingDir", "working_dir"] text (some "") = .valid tool.workingDir := by
  simp only [check, record, Checked.seq_eq_valid, Checked.map_eq_valid]
  constructor
  · rintro ⟨_, ⟨_, ⟨_, ⟨_, ⟨_, ⟨_, ⟨_, ⟨_, ⟨_, ⟨_, ⟨_, ⟨_, ⟨_, ⟨_, ⟨_, ⟨_, name, rfl⟩,
      _, description, rfl⟩, _, maxTokens, rfl⟩, _, modelName, rfl⟩, _, cache, rfl⟩, _, jsonResponse,
      rfl⟩, _, temperature, rfl⟩, _, internalPrompt, rfl⟩, _, arguments, rfl⟩, _, tools, rfl⟩, _,
      instructions, rfl⟩, _, id, rfl⟩, _, toolMapping, rfl⟩, _, localTools, rfl⟩, _, origin, rfl⟩, _,
      workingDir, rfl⟩
    exact ⟨name, description, maxTokens, modelName, cache, jsonResponse, temperature,
      internalPrompt, arguments, tools, instructions, id, toolMapping, localTools, origin, workingDir⟩
  · rintro ⟨name, description, maxTokens, modelName, cache, jsonResponse, temperature,
      internalPrompt, arguments, tools, instructions, id, toolMapping, localTools, origin, workingDir⟩
    exact ⟨_, ⟨_, ⟨_, ⟨_, ⟨_, ⟨_, ⟨_, ⟨_, ⟨_, ⟨_, ⟨_, ⟨_, ⟨_, ⟨_, ⟨_, ⟨_, name, rfl⟩,
      _, description, rfl⟩, _, maxTokens, rfl⟩, _, modelName, rfl⟩, _, cache, rfl⟩, _, jsonResponse,
      rfl⟩, _, temperature, rfl⟩, _, internalPrompt, rfl⟩, _, arguments, rfl⟩, _, tools, rfl⟩, _,
      instructions, rfl⟩, _, id, rfl⟩, _, toolMapping, rfl⟩, _, localTools, rfl⟩, _, origin, rfl⟩, _,
      workingDir, rfl⟩

end Tool
end ToolGraph
