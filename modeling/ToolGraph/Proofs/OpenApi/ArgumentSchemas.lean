import ToolGraph.Proofs.OpenApi.ArgumentFields

/-!
The schema for the arguments of an operation. What it requires is listed once and each property has the first
type that the parameter declares, apart from three slips: parameters of one name are not told apart when they
are required, nor is a body that is one argument from a parameter of its name, and a null that is no text
counts as a type.
-/
namespace ToolGraph.OpenApi

/-! ### Types -/

def declaredTypes (data : Value) : List Value :=
  match data.member? "type" with
  | none => []
  | some (.list types) => types
  | some type => [type]

def isSomeType : Value → Bool
  | .null | .text "null" => false
  | _ => true

def firstType (data : Value) : String :=
  (((declaredTypes data).find? isSomeType).map Value.display).getD "string"

inductive Misread (data : Value) : (name : String) → Prop where
  | null (given : data.member? "type" = some .null) : Misread data "None"
  | text (given : data.member? "type" = some (.text "null")) : Misread data "null"
  | item {types : List Value} (given : data.member? "type" = some (.list types))
      (first : types.find? (fun type => !type.equals (.text "null")) = some .null) :
      Misread data "None"

theorem equals_text (value : Value) (name : String) :
    value.equals (.text name) = true ↔ value = .text name := by
  rw [← Value.sameKey_text]
  cases value <;> simp [Value.equals, Value.sameKey, Value.number?]

theorem isSomeType_eq (value : Value) :
    isSomeType value = (!value.equals (.text "null") && !value.isNull) := by
  have same := equals_text value "null"
  unfold isSomeType
  split
  next => simp [Value.isNull]
  next => simp [same.mpr rfl]
  next noNull noText =>
    have other : value.equals (.text "null") = false := Bool.eq_false_iff.mpr (mt same.mp noText)
    cases value <;> simp_all [Value.isNull]

theorem find?_isSomeType {types : List Value} {type : Value}
    (first : types.find? (fun type => !type.equals (.text "null")) = some type) (some : type ≠ .null) :
    types.find? isSomeType = Option.some type := by
  rw [List.find?_eq_some_iff_append] at first ⊢
  obtain ⟨other, before, after, rfl, none⟩ := first
  refine ⟨?_, before, after, rfl, fun type member => ?_⟩
  · cases type <;> simp_all [isSomeType_eq, Value.isNull]
  · have null := none type member
    simp_all [isSomeType_eq]

theorem display_typeOf (data : Value) :
    (typeOf data).display = firstType data ∨ Misread data (typeOf data).display := by
  cases data with
  | map entries =>
    cases given : (Value.map entries).member? "type" with
    | none => exact .inl (by simp [typeOf, firstType, declaredTypes, given, Value.display])
    | some value =>
      cases value with
      | list types =>
        cases first : types.find? (fun type => !type.equals (.text "null")) with
        | none =>
          have none : types.find? isSomeType = none := by
            refine List.find?_eq_none.mpr fun type member => ?_
            have null := List.find?_eq_none.mp first type member
            simp_all [isSomeType_eq]
          exact .inl (by simp [typeOf, firstType, declaredTypes, given, first, none, Value.display])
        | some type =>
          by_cases null : type = .null
          · obtain rfl := null
            exact .inr (by simpa [typeOf, given, first] using .item given first)
          · have some := find?_isSomeType first null
            exact .inl (by simp [typeOf, firstType, declaredTypes, given, first, some])
      | null => exact .inr (by simpa [typeOf, given] using .null given)
      | text name =>
        by_cases null : name = "null"
        · obtain rfl := null
          exact .inr (by simpa [typeOf, given] using .text given)
        · have some : isSomeType (.text name) = true := by simp [isSomeType, null]
          exact .inl (by simp [typeOf, firstType, declaredTypes, given, some])
      | _ => exact .inl (by simp [typeOf, firstType, declaredTypes, given, isSomeType])
  | _ => exact .inl rfl

/-! ### Schemas -/

/-- The schema of the arguments fits what a description gives. -/
structure HasSchema (version : Version) (declaration : Declaration) (operation : Operation)
    (tool : Tool) : Prop where
  listed : ∀ name ∈ operation.requiredNames, .text name ∈ tool.requiredArguments
  /-- What is required is listed once just if no name is required of two parameters, or of a parameter and of
  a body that is one argument. -/
  distinct : tool.requiredArguments.Nodup ↔ operation.requiredNames.Nodup ∧
    ∀ body ∈ operation.body, body.required = true → body.wholeSchema?.isSome →
      bodyArgument ∉ operation.requiredNames
  types : List.Forall₂ (fun data parameter =>
      lastNamed? operation.parameters parameter.name = some parameter →
      (parameter.name = bodyArgument → operation.body.bind Body.wholeSchema? = none) →
      ∃ property type, tool.property? parameter.name = some property ∧ property.get "type" = .text type ∧
        (type = firstType (typed version data) ∨ Misread (typed version data) type))
    (declaration.parameters.filter (isArgument version)) operation.parameters

/-- Each operation that is given has a tool whose arguments have a schema: what it requires is listed once but
for two slips, and each property of a parameter has the first type that is not null unless it is misread. -/
theorem schemas_fit {document : Value} {version : Version} {location workingDir model : String}
    {found : List Tool} (adapted : tools document version location workingDir model = .ok found) :
    ∃ spec root own, inline document = .ok spec ∧ found = root :: own ∧
      List.Forall₂ (fun declaration tool => ∃ operation, declaration.Reads version operation ∧
        HasSchema version declaration operation tool) (declarations version spec) own := by
  obtain ⟨spec, description, root, own, inlined, -, made, each⟩ := exists_operationTools adapted
  refine ⟨spec, root, own, inlined, made, each.imp ?_⟩
  rintro declaration tool ⟨operation, reads, isToolOf⟩
  refine ⟨operation, reads, fun name => ?_, isToolOf.nodup_requiredArguments, reads.parameters.imp ?_⟩
  · exact isToolOf.mem_requiredArguments
  intro data parameter read last own
  have property := ArgumentFields.isPropertyOf_propertyOf parameter
  refine ⟨_, parameter.typeName, isToolOf.property?_of_last last own, property.type, ?_⟩
  exact read.typeName ▸ display_typeOf _

def twofold : Value :=
  let parameter (place : String) (type : Value) : Value :=
    .map [(.text "name", .text "id"), (.text "in", .text place), (.text "required", .bool true),
      (.text "schema", .map [(.text "type", type)])]
  let parameters : List Value :=
    [parameter "path" (.text "integer"), parameter "header" (.list [.null, .text "string"])]
  .map [(.text "paths", .map [(.text "/items/\x7bid\x7d",
    .map [(.text "get", .map [(.text "operationId", .text "find"), (.text "parameters", .list parameters)])])])]

theorem twofold_fits : ∃ root tool, tools twofold .three "/api.json" "/" "" = .ok [root, tool] ∧
    tool.requiredArguments = [.text "id", .text "id"] ∧
    tool.property? "id" = some (.map [(.text "type", .text "None")]) ∧
    List.Forall₂ (fun declaration tool => ∃ operation, declaration.Reads .three operation ∧
      HasSchema .three declaration operation tool) (declarations .three twofold) [tool] := by
  refine ⟨_, _, rfl, rfl, rfl, ?_⟩
  obtain ⟨spec, root, own, inlined, made, each⟩ :=
    schemas_fit (show tools twofold .three "/api.json" "/" "" = .ok _ from rfl)
  obtain ⟨rfl, rfl⟩ := List.cons.inj made
  obtain rfl : twofold = spec := Except.ok.inj inlined
  exact each

end ToolGraph.OpenApi
