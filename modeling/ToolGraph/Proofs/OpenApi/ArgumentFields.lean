import Mathlib.Data.List.Induction
import Mathlib.Data.List.Nodup
import ToolGraph.Proofs.OpenApi.Declarations

/-!
The arguments of an operation. Each name of a parameter is a property, and the last parameter of the name
counts. The properties of a body that is an object come in where there is no parameter of the name; any other
body is one argument, and takes the place of a parameter of its name.
-/
namespace ToolGraph

namespace Tool

def property? (tool : Tool) (name : String) : Option Value :=
  (tool.arguments.bind (·.get? "properties")).bind (·.member? name)

def requiredArguments (tool : Tool) : List Value :=
  match tool.arguments.bind (·.get? "required") with
  | some (.list names) => names
  | _ => []

end Tool

namespace OpenApi

def lastNamed? (parameters : List Parameter) (name : String) : Option Parameter :=
  (parameters.filter (·.name == name)).getLast?

def Operation.requiredNames (operation : Operation) : List String :=
  (operation.parameters.filter (·.required)).map (·.name)

namespace Body
open ArgumentFields

def wholeSchema? (body : Body) : Option Value :=
  match body.schema with
  | none | some [] => none
  | some entries =>
    if (objectProperties? (schemaOf entries)).isSome then none else some (schemaOf entries)

def ownProperties (body : Body) : List (Value × Value) :=
  match body.schema with
  | none | some [] => []
  | some entries => (objectProperties? (schemaOf entries)).getD []

end Body

theorem exists_lastNamed? {parameters : List Parameter} {parameter : Parameter}
    (member : parameter ∈ parameters) : ∃ last, lastNamed? parameters parameter.name = some last := by
  have known : parameter ∈ parameters.filter (·.name == parameter.name) := by simp [member]
  exact ⟨_, List.getLast?_eq_some_getLast (List.ne_nil_of_mem known)⟩

theorem lastNamed?_append (front : List Parameter) (parameter : Parameter) (name : String) :
    lastNamed? (front ++ [parameter]) name =
      if parameter.name = name then some parameter else lastNamed? front name := by
  unfold lastNamed?
  rw [List.filter_append]
  split
  next same => rw [List.filter_cons_of_pos (by simp [same]), List.filter_nil, List.getLast?_concat]
  next other => rw [List.filter_cons_of_neg (by simp [other]), List.filter_nil, List.append_nil]

structure IsPropertyOf (property : Value) (parameter : Parameter) : Prop where
  type : property.get "type" = .text parameter.typeName
  description : property.member? "description" = (parameter.description.filter (!·.isEmpty)).map .text

namespace ArgumentFields

/-! ### Parameters -/

theorem isPropertyOf_propertyOf (parameter : Parameter) : IsPropertyOf (propertyOf parameter) parameter := by
  obtain ⟨name, place, required, description, typeName⟩ := parameter
  cases description with
  | none =>
    constructor <;> simp [propertyOf, Value.get, Value.member?, Value.entry?_cons, entry?_nil]
  | some description =>
    cases empty : description.isEmpty <;> constructor <;>
      simp [propertyOf, empty, Option.filter, Value.get, Value.member?, Value.entry?_cons, entry?_nil]

theorem required_foldl_addParameter (parameters : List Parameter) (fields : ArgumentFields) :
    (parameters.foldl addParameter fields).required =
      fields.required ++ (parameters.filter (·.required)).map (·.name) := by
  induction parameters generalizing fields with
  | nil => simp
  | cons parameter parameters ih =>
    rw [List.foldl_cons, ih, addParameter, List.append_assoc, List.filter_cons]
    split <;> rfl

theorem entry?_foldl_addParameter (parameters : List Parameter) (name : String) :
    Value.entry? (parameters.foldl addParameter ⟨[], []⟩).properties (.text name) =
      (lastNamed? parameters name).map propertyOf := by
  induction parameters using List.reverseRecOn with
  | nil => rfl
  | append_singleton front parameter ih =>
    rw [List.foldl_append, List.foldl_cons, List.foldl_nil, addParameter, Value.entry?_putEntry, ih,
      lastNamed?_append]
    split <;> rfl

/-! ### Bodies -/

theorem entry?_addProperty (properties : List (Value × Value)) (entry : Value × Value) (name : String) :
    Value.entry? (addProperty properties entry) (.text name) =
      (Value.entry? properties (.text name)).or (Value.entry? [entry] (.text name)) := by
  unfold addProperty
  split
  next taken =>
    by_cases same : entry.1 = .text name
    · rw [same] at taken
      rw [Option.or_of_isSome taken]
    · have none : Value.entry? [entry] (.text name) = none := by simp [Value.entry?, same]
      rw [none, Option.or_none]
  next => rw [entry?_append]

theorem entry?_foldl_addProperty (properties more : List (Value × Value)) (name : String) :
    Value.entry? (more.foldl addProperty properties) (.text name) =
      (Value.entry? properties (.text name)).or (Value.entry? more (.text name)) := by
  induction more generalizing properties with
  | nil => rw [List.foldl_nil, entry?_nil, Option.or_none]
  | cons entry more ih =>
    rw [List.foldl_cons, ih, entry?_addProperty, Option.or_assoc, ← entry?_append]
    rfl

theorem nodup_addName {names : List String} (distinct : names.Nodup) (name : String) :
    (addName names name).Nodup := by
  unfold addName
  split
  next => exact distinct
  next fresh =>
    rw [← List.concat_eq_append]
    exact List.Nodup.concat (by simpa using fresh) distinct

theorem nodup_foldl_addName {names : List String} (distinct : names.Nodup) (more : List String) :
    (more.foldl addName names).Nodup := by
  induction more generalizing names with
  | nil => exact distinct
  | cons name more ih => exact ih (nodup_addName distinct name)

theorem prefix_foldl_addName (names more : List String) : names <+: more.foldl addName names := by
  induction more generalizing names with
  | nil => exact List.prefix_refl _
  | cons name more ih =>
    refine List.IsPrefix.trans ?_ (ih (addName names name))
    unfold addName
    split
    · exact List.prefix_refl _
    · exact List.prefix_append _ _

theorem addBody_cases (fields : ArgumentFields) (body : Body) :
    (body.wholeSchema? = none ∧ body.ownProperties = [] ∧ fields.addBody body = fields) ∨
      (∃ schema, body.wholeSchema? = none ∧
        fields.addBody body = fields.addObject body.required schema body.ownProperties) ∨
      ∃ schema, body.wholeSchema? = some schema ∧ body.ownProperties = [] ∧
        fields.addBody body = fields.addWhole body.required schema := by
  unfold addBody Body.wholeSchema? Body.ownProperties
  cases body.schema with
  | none => exact .inl ⟨rfl, rfl, rfl⟩
  | some entries =>
    cases entries with
    | nil => exact .inl ⟨rfl, rfl, rfl⟩
    | cons first others =>
      simp only
      cases objectProperties? (schemaOf (first :: others)) with
      | some properties => exact .inr (.inl ⟨schemaOf (first :: others), rfl, rfl⟩)
      | none => exact .inr (.inr ⟨schemaOf (first :: others), rfl, rfl, rfl⟩)

theorem entry?_addBody (fields : ArgumentFields) (body : Body) (name : String) :
    Value.entry? (fields.addBody body).properties (.text name) =
      ((if name = bodyArgument then body.wholeSchema? else none).or
        (Value.entry? fields.properties (.text name))).or (Value.entry? body.ownProperties (.text name)) := by
  rcases addBody_cases fields body with
    ⟨none, own, same⟩ | ⟨schema, none, same⟩ | ⟨schema, some, own, same⟩
  · simp [same, none, own, entry?_nil]
  · simp [same, none, addObject, entry?_foldl_addProperty]
  · rw [same, some, own, addWhole, Value.entry?_putEntry, entry?_nil, Option.or_none]
    split
    next same => rw [if_pos same.symm, Option.some_or]
    next other => rw [if_neg (Ne.symm other), Option.none_or]

theorem prefix_addBody (fields : ArgumentFields) (body : Body) :
    fields.required <+: (fields.addBody body).required := by
  rcases addBody_cases fields body with ⟨-, -, same⟩ | ⟨schema, -, same⟩ | ⟨schema, -, -, same⟩
  · simp [same]
  · rw [same]
    exact prefix_foldl_addName _ _
  · rw [same]
    exact List.prefix_append _ _

theorem nodup_addBody (fields : ArgumentFields) (body : Body) :
    (fields.addBody body).required.Nodup ↔ fields.required.Nodup ∧
      (body.required = true → body.wholeSchema?.isSome → bodyArgument ∉ fields.required) := by
  rcases addBody_cases fields body with
    ⟨none, -, same⟩ | ⟨schema, none, same⟩ | ⟨schema, some, -, same⟩
  · simp [same, none]
  · rw [same, none]
    simp only [Option.isSome_none, Bool.false_eq_true, false_imp_iff, implies_true, and_true]
    exact ⟨(prefix_foldl_addName _ _).sublist.nodup, (nodup_foldl_addName · _)⟩
  · rw [same, some, addWhole]
    cases body.required with
    | false => simp
    | true => simp [← List.concat_eq_append, List.nodup_concat, and_comm]

/-! ### Operations -/

section operation
variable (operation : Operation)

theorem entry?_ofOperation (name : String) :
    Value.entry? (ofOperation operation).properties (.text name) =
      ((if name = bodyArgument then operation.body.bind Body.wholeSchema? else none).or
        ((lastNamed? operation.parameters name).map propertyOf)).or
          (operation.body.bind fun body => Value.entry? body.ownProperties (.text name)) := by
  unfold ofOperation
  cases operation.body with
  | none => simp [entry?_foldl_addParameter]
  | some body => simp [entry?_addBody, entry?_foldl_addParameter]

theorem required_parameters :
    (operation.parameters.foldl addParameter ⟨[], []⟩).required = operation.requiredNames := by
  rw [required_foldl_addParameter]
  rfl

theorem prefix_ofOperation : operation.requiredNames <+: (ofOperation operation).required := by
  unfold ofOperation
  rw [← required_parameters]
  cases operation.body with
  | none => exact List.prefix_refl _
  | some body => exact prefix_addBody _ body

theorem nodup_ofOperation : (ofOperation operation).required.Nodup ↔ operation.requiredNames.Nodup ∧
    ∀ body ∈ operation.body, body.required = true → body.wholeSchema?.isSome →
      bodyArgument ∉ operation.requiredNames := by
  unfold ofOperation
  rw [← required_parameters]
  cases operation.body with
  | none => simp
  | some body => simpa using nodup_addBody _ body

end operation

theorem eq_nil_of_properties {operation : Operation} (none : (ofOperation operation).properties = []) :
    operation.parameters = [] ∧ operation.body.bind Body.wholeSchema? = Option.none := by
  have missing (name : String) := (entry?_ofOperation operation name).symm.trans (none ▸ entry?_nil _)
  simp only [Option.or_eq_none_iff, Option.map_eq_none_iff] at missing
  constructor
  · refine List.eq_nil_iff_forall_not_mem.mpr fun parameter member => ?_
    obtain ⟨last, known⟩ := exists_lastNamed? member
    simp [(missing parameter.name).1.2] at known
  · simpa using (missing bodyArgument).1.1

end ArgumentFields

/-! ### Tools -/

namespace IsToolOf
open ArgumentFields
variable {server : List Char} {operation : Operation} {tool : Tool}
  (isToolOf : IsToolOf server operation tool)
include isToolOf

theorem property?_eq (name : String) :
    tool.property? name = Value.entry? (ofOperation operation).properties (.text name) := by
  rw [Tool.property?, isToolOf.arguments, schema?]
  split
  next empty =>
    rw [List.isEmpty_iff.mp empty]
    rfl
  next => rfl

theorem property?_of_last {parameter : Parameter} {name : String}
    (last : lastNamed? operation.parameters name = some parameter)
    (own : name = bodyArgument → operation.body.bind Body.wholeSchema? = none) :
    tool.property? name = some (propertyOf parameter) := by
  rw [isToolOf.property?_eq, entry?_ofOperation, last, ite_eq_right_iff.mpr own]
  rfl

theorem property?_of_whole {schema : Value}
    (whole : operation.body.bind Body.wholeSchema? = some schema) :
    tool.property? bodyArgument = some schema := by
  rw [isToolOf.property?_eq, entry?_ofOperation, if_pos rfl, whole]
  rfl

theorem isSome_property? {parameter : Parameter} (member : parameter ∈ operation.parameters) :
    (tool.property? parameter.name).isSome := by
  obtain ⟨last, known⟩ := exists_lastNamed? member
  rw [isToolOf.property?_eq, entry?_ofOperation, known]
  simp

theorem requiredArguments_eq : tool.requiredArguments =
    if (ofOperation operation).properties = [] then []
    else (ofOperation operation).required.map .text := by
  rw [Tool.requiredArguments, isToolOf.arguments, schema?]
  by_cases none : (ofOperation operation).properties = []
  · simp [none]
  · by_cases free : (ofOperation operation).required = []
    · simp [none, free, Entries.get?]
    · simp [none, free, Entries.get?]

theorem mem_requiredArguments {name : String} (member : name ∈ operation.requiredNames) :
    .text name ∈ tool.requiredArguments := by
  have some : (ofOperation operation).properties ≠ [] := fun none => by
    simp [Operation.requiredNames, (eq_nil_of_properties none).1] at member
  rw [isToolOf.requiredArguments_eq, if_neg some]
  exact List.mem_map_of_mem ((prefix_ofOperation operation).subset member)

/-- What is required is listed once, unless two parameters of one name are required, or a body that is one
argument has the name of a parameter and both are required. -/
theorem nodup_requiredArguments : tool.requiredArguments.Nodup ↔ operation.requiredNames.Nodup ∧
    ∀ body ∈ operation.body, body.required = true → body.wholeSchema?.isSome →
      bodyArgument ∉ operation.requiredNames := by
  rw [isToolOf.requiredArguments_eq]
  split
  next none =>
    have names : operation.requiredNames = [] := by
      rw [Operation.requiredNames, (eq_nil_of_properties none).1]
      rfl
    simp [names]
  next =>
    rw [← nodup_ofOperation]
    exact List.nodup_map_iff fun _ _ same => Value.text.inj same

end IsToolOf
end OpenApi
end ToolGraph
