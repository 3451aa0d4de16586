import ToolGraph.Proofs.Levels
import ToolGraph.Tool.Basic

/-!
The JSON form of a tool: which members it has under which names, and what an exchange does to a tool.
-/
namespace ToolGraph

namespace Entries

theorem keys_append {α : Type} (first second : Entries String α) :
    keys (first ++ second) = keys first ++ keys second :=
  List.map_append

@[simp] theorem get?_unless {α : Type} (condition : Prop) [Decidable condition] (name key : String)
    (value : α) :
    get? (if condition then [] else [(name, value)]) key =
      if name = key then (if condition then none else some value) else none := by
  split_ifs <;> simp_all [get?_cons]

end Entries

namespace Tool
open Entries

/-- The tables of a tool have each key once. -/
structure Distinct (tool : Tool) : Prop where
  mapping : (keys tool.toolMapping).Nodup
  locals : (keys tool.localTools).Nodup
  arguments : ∀ arguments ∈ tool.arguments, (keys arguments).Nodup

def IsWritable (tool : Tool) : Prop := tool.fault? = none

theorem isWritable_iff {tool : Tool} : tool.IsWritable ↔ ∀ table ∈ tool.arguments, ∀ entry ∈ table,
    entry.2.levels ≤ Value.maxLevels ∧ entry.2.IsEncodable := by
  rw [IsWritable, fault?, List.findSome?_eq_none_iff]
  simp only [Value.fault?_eq_none]
  cases tool.arguments <;> simp

theorem fault_cases {tool : Tool} {fault : Fault} (found : tool.fault? = some fault) :
    ∃ table ∈ tool.arguments, ∃ entry ∈ table, entry.2.fault? Value.maxLevels = some fault ∧
      (Value.maxLevels < entry.2.levels ∨ ¬ entry.2.IsEncodable) := by
  obtain ⟨entry, member, known⟩ := List.exists_of_findSome?_eq_some found
  cases given : tool.arguments with
  | none => simp [given] at member
  | some table =>
    rw [given] at member
    refine ⟨table, rfl, entry, member, known, ?_⟩
    by_cases deep : Value.maxLevels < entry.2.levels
    · exact .inl deep
    · exact .inr (Value.not_isEncodable_of_fault known (Nat.le_of_not_lt deep))

def HasJsonArguments (tool : Tool) : Prop :=
  ∀ arguments ∈ tool.arguments, (Value.ofTable arguments).IsJson

/-- The keys of the tool's own tables have an encoding, so that they are written as they are. A lone
surrogate in one, which only an artifact or a program in its JSON form brings, would be replaced. -/
def HasEncodableKeys (tool : Tool) : Prop :=
  ∀ key ∈ keys (tool.arguments.getD []) ++ keys tool.toolMapping ++ keys tool.localTools,
    Text.isEncodable key = true

instance (tool : Tool) : Decidable tool.HasEncodableKeys :=
  inferInstanceAs (Decidable (∀ key ∈ _, Text.isEncodable key = true))

/-! ### Members -/

section members
variable {target : String → Json} {tool : Tool} {arguments : List (String × Json)}

@[simp] theorem get?_textMember (name value key : String) :
    get? (textMember name value) key =
      if name = key then (if value.isEmpty then none else some (.text value)) else none := by
  unfold textMember
  split_ifs <;> simp_all [get?_cons]

@[simp] theorem get?_optionalMember {α : Type} (name : String) (form : α → Json) (value : Option α)
    (key : String) :
    get? (optionalMember name form value) key = if name = key then value.map form else none := by
  cases value with
  | none => simp [optionalMember]
  | some value => simp [optionalMember, get?_cons]

theorem sublist_textMember (name value : String) : (keys (textMember name value)).Sublist [name] := by
  unfold textMember
  split
  next => exact List.nil_sublist _
  next => exact List.Sublist.refl _

theorem sublist_optionalMember {α : Type} (name : String) (form : α → Json) (value : Option α) :
    (keys (optionalMember name form value)).Sublist [name] := by
  cases value with
  | none => exact List.nil_sublist _
  | some value => exact List.Sublist.refl _

theorem sublist_unless {α : Type} (condition : Prop) [Decidable condition] (name : String) (value : α) :
    (keys (if condition then [] else [(name, value)])).Sublist [name] := by
  split
  next => exact List.nil_sublist _
  next => exact List.Sublist.refl _

theorem sublist_membersWith (own : (keys arguments).Sublist ["arguments"]) :
    (keys (membersWith target tool arguments)).Sublist
      ["name", "description", "maxTokens", "modelName", "cache", "jsonResponse", "temperature",
        "internalPrompt", "arguments", "tools", "instructions", "id", "toolMapping", "localTools",
        "source", "workingDir"] := by
  simp only [membersWith, keys_append]
  exact (((((((((((sublist_textMember _ _).append (sublist_textMember _ _)).append
    (sublist_optionalMember _ _ _)).append (.refl ["modelName"])).append
    (sublist_optionalMember _ _ _)).append (sublist_optionalMember _ _ _)).append
    (sublist_optionalMember _ _ _)).append (.refl ["internalPrompt"])).append own).append
    (sublist_unless _ _ _)).append (.refl ["instructions", "id"])).append
    (sublist_unless _ _ _) |>.append (.refl ["localTools", "source", "workingDir"])

theorem nodup_membersWith (own : (keys arguments).Sublist ["arguments"]) :
    (keys (membersWith target tool arguments)).Nodup :=
  (sublist_membersWith own).nodup (by decide)

theorem argumentsMember?_eq (known : tool.argumentsMember? = some arguments) :
    tool.arguments = none ∧ arguments = [] ∨
      ∃ table json, tool.arguments = some table ∧ (Value.ofTable table).toJson? = some json ∧
        arguments = [("arguments", json)] := by
  unfold argumentsMember? at known
  split at known
  next none => exact .inl ⟨none, (Option.some.inj known).symm⟩
  next table some =>
    split at known
    next => cases known
    next =>
      obtain ⟨json, form, rfl⟩ := Option.map_eq_some_iff.mp known
      exact .inr ⟨table, json, some, form, rfl⟩

theorem isWritable_iff_argumentsMember? :
    tool.IsWritable ↔ ∃ arguments, tool.argumentsMember? = some arguments := by
  unfold IsWritable argumentsMember?
  cases given : tool.arguments with
  | none => simp [fault?, given]
  | some table =>
    simp only
    cases known : tool.fault? with
    | some fault => simp
    | none =>
      have each : ∀ entry ∈ table, entry.2.fault? Value.maxLevels = none := by
        simpa [fault?, given, List.findSome?_eq_none_iff] using known
      obtain ⟨json, form⟩ := Value.exists_form_of_table each
      exact iff_of_true rfl ⟨[("arguments", json)], congrArg (Option.map _) form⟩

theorem sublist_argumentsMember? (known : tool.argumentsMember? = some arguments) :
    (keys arguments).Sublist ["arguments"] := by
  rcases argumentsMember?_eq known with ⟨-, rfl⟩ | ⟨table, json, -, -, rfl⟩
  · exact List.nil_sublist _
  · exact List.Sublist.refl _

theorem forall_optionalMember {α : Type} {holds : Json → Prop} {name : String} {form : α → Json}
    {value : Option α} :
    (∀ member ∈ optionalMember name form value, holds member.2) ↔ ∀ x ∈ value, holds (form x) := by
  cases value <;> simp [optionalMember]

theorem forall_textMember {holds : Json → Prop} (texts : ∀ value, holds (.text value))
    (name value : String) : ∀ member ∈ textMember name value, holds member.2 := by
  unfold textMember
  split <;> simp [texts]

def memberAt? (target : String → Json) (tool : Tool) (arguments : Option Json) : String → Option Json
  | "name" => if tool.name.isEmpty then none else some (.text tool.name)
  | "description" => if tool.description.isEmpty then none else some (.text tool.description)
  | "maxTokens" => tool.maxTokens.map .int
  | "modelName" => some (.text tool.modelName)
  | "cache" => tool.cache.map .bool
  | "jsonResponse" => tool.jsonResponse.map .bool
  | "temperature" => tool.temperature.map .float
  | "internalPrompt" => some ((tool.internalPrompt.map Json.bool).getD .null)
  | "arguments" => arguments
  | "tools" => if tool.tools.isEmpty then none else some (.list (tool.tools.map .text))
  | "instructions" => some (.text tool.instructions)
  | "id" => some (.text tool.id)
  | "toolMapping" =>
    if tool.toolMapping.isEmpty then none else some (tableJson target tool.toolMapping)
  | "localTools" => some (tableJson target tool.localTools)
  | "source" =>
    some (.object [("location", .text tool.origin.location), ("lineNo", .int tool.origin.line)])
  | "workingDir" => some (.text tool.workingDir)
  | _ => none

theorem get?_membersWith (known : tool.argumentsMember? = some arguments) (key : String) :
    get? (membersWith target tool arguments) key =
      memberAt? target tool (get? arguments "arguments") key := by
  have own : get? arguments key = if "arguments" = key then get? arguments "arguments" else none := by
    rcases argumentsMember?_eq known with ⟨-, rfl⟩ | ⟨table, json, -, -, rfl⟩
    · simp
    · simp [get?_cons]
  generalize get? arguments "arguments" = given at own
  unfold memberAt?
  split
  case h_17 =>
    simp only [membersWith, get?_append, get?_textMember, get?_optionalMember, get?_cons, get?_nil,
      get?_unless, own, @eq_comm _ _ key]
    simp_all
  all_goals simp [membersWith, get?_append, get?_cons, own]

theorem forall_membersWith (holds : Json → Prop) (null : holds .null)
    (bools : ∀ value, holds (.bool value)) (texts : ∀ value, holds (.text value)) :
    (∀ member ∈ membersWith target tool arguments, holds member.2) ↔
      (∀ value ∈ tool.maxTokens, holds (.int value)) ∧
      (∀ value ∈ tool.temperature, holds (.float value)) ∧
      (∀ member ∈ arguments, holds member.2) ∧
      (tool.tools ≠ [] → holds (.list (tool.tools.map .text))) ∧
      (tool.toolMapping ≠ [] → holds (tableJson target tool.toolMapping)) ∧
      holds (tableJson target tool.localTools) ∧
      holds (.object [("location", .text tool.origin.location), ("lineNo", .int tool.origin.line)]) := by
  have internal : holds ((tool.internalPrompt.map Json.bool).getD .null) := by
    cases tool.internalPrompt with
    | none => exact null
    | some value => exact bools value
  have optional : ∀ {condition : Prop} [Decidable condition] {name : String} {json : Json},
      (∀ member ∈ (if condition then [] else [(name, json)]), holds member.2) ↔
        (¬ condition → holds json) := by
    intro condition _ name json
    split_ifs with absent <;> simp [absent]
  simp only [membersWith, List.forall_mem_append, List.forall_mem_cons, forall_optionalMember, optional,
    iff_true_intro (forall_textMember texts _ _), texts, bools, internal, List.isEmpty_iff]
  simp only [List.not_mem_nil, false_implies, implies_true, true_and, and_true, and_assoc, ne_eq]

theorem proper_membersWith (targets : ∀ id, (target id).Proper fun _ => True)
    (distinct : tool.Distinct) (known : tool.argumentsMember? = some arguments) :
    (Json.object (tool.membersWith target arguments)).Proper fun _ => True := by
  refine .object (nodup_membersWith (sublist_argumentsMember? known)) ?_
  have table : ∀ {table : Entries String String}, (Entries.keys table).Nodup →
      (tableJson target table).Proper fun _ => True := by
    intro table keys
    refine .object (by rw [Entries.keys, List.map_map]; exact keys) fun member present => ?_
    obtain ⟨entry, -, rfl⟩ := List.mem_map.mp present
    exact targets entry.2
  refine (forall_membersWith _ .null .bool .text).mpr ⟨fun value _ => .int value,
    fun value _ => .float trivial, ?arguments, fun _ => .list ?texts, fun _ => table distinct.mapping,
    table distinct.locals, .object (show ["location", "lineNo"].Nodup by decide) ?origin⟩
  case arguments =>
    rcases argumentsMember?_eq known with ⟨-, rfl⟩ | ⟨table, json, -, form, rfl⟩
    · simp
    · simpa using (Value.toJson?_plain form).mono fun _ _ => trivial
  case texts =>
    intro item member
    obtain ⟨text, -, rfl⟩ := List.mem_map.mp member
    exact .text text
  case origin =>
    intro member present
    simp only [List.mem_cons, List.not_mem_nil, or_false] at present
    rcases present with rfl | rfl
    · exact .text _
    · exact .int _

end members

/-! ### An exchange -/

/-- The tool after an exchange; arguments that cannot be written stay. -/
def exchanged (tool : Tool) : Tool :=
  { tool with
    arguments := if tool.fault?.isSome then tool.arguments
      else tool.arguments.map (mapValues Value.exchanged) }

theorem exchanged_of_isWritable {tool : Tool} (writable : tool.IsWritable) :
    tool.exchanged = { tool with arguments := tool.arguments.map (mapValues Value.exchanged) } := by
  have sound : tool.fault?.isSome = false := by rw [writable]; rfl
  rw [exchanged, sound, if_neg Bool.false_ne_true]

theorem exchanged_of_not_isWritable {tool : Tool} (refused : ¬ tool.IsWritable) :
    tool.exchanged = tool := by
  rw [exchanged, if_pos (Option.isSome_iff_ne_none.mpr refused)]

theorem fault?_exchanged (tool : Tool) : tool.exchanged.fault? = tool.fault? := by
  by_cases writable : tool.IsWritable
  · rw [exchanged_of_isWritable writable]
    unfold IsWritable at writable
    rw [writable]
    unfold fault? at writable ⊢
    rw [List.findSome?_eq_none_iff] at writable ⊢
    cases given : tool.arguments with
    | none => simp
    | some table =>
      simp only [given, Option.getD_some, Option.map_some, mapValues, List.forall_mem_map]
        at writable ⊢
      exact fun entry member => Value.fault?_exchanged (writable entry member)
  · rw [exchanged_of_not_isWritable writable]

theorem argumentsMember?_exchanged (tool : Tool) :
    tool.exchanged.argumentsMember? = tool.argumentsMember? := by
  by_cases writable : tool.IsWritable
  · have again : tool.exchanged.fault? = none := (fault?_exchanged tool).trans writable
    rw [exchanged_of_isWritable writable] at again ⊢
    unfold argumentsMember?
    rw [again, show tool.fault? = none from writable]
    cases tool.arguments with
    | none => rfl
    | some table => exact congrArg (Option.map _) (Value.toJson?_ofTable_exchanged table)
  · rw [exchanged_of_not_isWritable writable]

theorem members?_exchanged (target : String → Json) (tool : Tool) :
    tool.exchanged.members? target = tool.members? target := by
  rw [members?, members?, argumentsMember?_exchanged]
  rfl

theorem exchanged_of_json {tool : Tool} (plain : tool.HasJsonArguments) : tool.exchanged = tool := by
  have same : tool.arguments.map (mapValues Value.exchanged) = tool.arguments := by
    cases given : tool.arguments with
    | none => rfl
    | some table => exact congrArg some (plain table given).table
  rw [exchanged, same, ite_self]

theorem sameTable_self {table : Entries String String} (distinct : (keys table).Nodup) :
    sameTable table table = true := by
  simp only [sameTable, beq_self_eq_true, Bool.true_and, List.all_eq_true, beq_iff_eq]
  exact fun entry member => get?_of_mem distinct member

theorem same_self {tool : Tool} (distinct : tool.Distinct) (plain : tool.HasJsonArguments)
    (number : tool.temperature ≠ some .nan) : tool.same tool = true := by
  simp only [same, beq_self_eq_true, Bool.true_and, Bool.and_true, Bool.and_eq_true,
    sameTable_self distinct.mapping, sameTable_self distinct.locals]
  constructor
  · cases given : tool.temperature with
    | none => rfl
    | some value => exact Value.same_self fun nan => number (given.trans (congrArg some nan))
  · cases given : tool.arguments with
    | none => rfl
    | some table => exact (plain table given).equals

end Tool
end ToolGraph
