import ToolGraph.Proofs.OpenApi.Names
import ToolGraph.Proofs.OpenApi.Refusals
import ToolGraph.Proofs.Value

/-!
Descriptions of version 2, written in version 3. The address of the server becomes one text, the type of
a parameter a schema, and the body, which is one of the parameters, a part of its own in the content type
that is picked. The tools stay the same wherever the description lies, unless its location is no URL that
can be split: only version 2 looks at it then.
-/
namespace ToolGraph.OpenApi
open Text

/-! ### Version 3 of a description -/

def leaveOut (names : List String) (entries : List (Value × Value)) : List (Value × Value) :=
  entries.filter (fun entry => !names.any (fun name => entry.1.sameKey (.text name)))

def entryOf (value : Value) (name : String) : List (Value × Value) :=
  (value.member? name).toList.map (fun found => (.text name, found))

def itemsOf : Value → List Value
  | .list items => items
  | _ => []

def textsIn (value : Value) : List String := (itemsOf value).map Value.display

def isBody (parameter : Value) : Bool :=
  match parameter.get "in" with
  | .text "body" => true
  | _ => false

def upgradeParameter : Value → Value
  | .map entries =>
    .map (leaveOut ["type", "schema"] entries ++
      [(.text "schema", .map (entryOf (.map entries) "type"))])
  | value => value

def upgradeParameters : Value → Value
  | .list items => .list ((items.filter (!isBody ·)).map upgradeParameter)
  | value => value

def upgradeBody (types : List String) (parameter : Value) : Value :=
  .map (entryOf parameter "description" ++ entryOf parameter "required" ++
    [(.text "content",
      .map [(.text (pickContentType types), .map (entryOf parameter "schema"))])])

def typesOf (consumes : List String) (operation : Value) : List String :=
  let own := textsIn (operation.get "consumes")
  if own.isEmpty then consumes else own

def bodyOf? (operation : Value) : Option Value :=
  (itemsOf (operation.get "parameters")).find? isBody

def upgradeOperation (consumes : List String) : Value → Value
  | .map entries =>
    .map (leaveOut ["parameters", "consumes", "requestBody"] entries ++
      (entryOf (.map entries) "parameters").map (fun entry => (entry.1, upgradeParameters entry.2)) ++
      (bodyOf? (.map entries)).toList.map (fun body =>
        (.text "requestBody", upgradeBody (typesOf consumes (.map entries)) body)))
  | value => value

def upgradePart (consumes : List String) (key value : Value) : Value :=
  if key.sameKey (.text "parameters") then upgradeParameters value
  else if Method.all.any (fun method => key.sameKey (.text method.name)) then
    upgradeOperation consumes value
  else value

def upgradeItem (consumes : List String) : Value → Value
  | .map entries => .map (entries.map (fun entry => (entry.1, upgradePart consumes entry.1 entry.2)))
  | value => value

def upgradePaths (consumes : List String) : Value → Value
  | .map entries => .map (entries.map (fun entry => (entry.1, upgradeItem consumes entry.2)))
  | value => value

def serverUrl (document : Value) : String :=
  (textsIn (document.get "schemes")).headD "" ++ "://" ++ (document.get "host").display ++
    ((document.member? "basePath").getD (.text "")).display

/-- A description of version 2, written in version 3. -/
def upgrade : Value → Value
  | .map entries =>
    let document := Value.map entries
    .map (leaveOut ["swagger", "openapi", "host", "basePath", "schemes", "consumes", "servers", "paths"]
        entries ++
      [(.text "openapi", .text "3.0.0"),
        (.text "servers", .list [.map [(.text "url", .text (serverUrl document))]])] ++
      (entryOf document "paths").map (fun entry =>
        (entry.1, upgradePaths (textsIn (document.get "consumes")) entry.2)))
  | value => value

/-! ### Descriptions that have the same in both versions -/

inductive AreTexts : Value → Prop where
  | missing : AreTexts .null
  | texts (texts : List String) : AreTexts (.list (texts.map .text))

structure IsPlainParameter (parameter : Value) : Prop where
  place : ∃ place ∈ ["query", "header", "path"], parameter.get "in" = .text place
  name : ((parameter.member? "name").getD (.text "")).isText = true
  type : ((parameter.member? "type").getD (.text "string")).isText = true
  description : (parameter.get "description").isNull = true ∨
    (parameter.get "description").isText = true

structure IsPlainOperation (operation : Value) : Prop where
  consumes : AreTexts (operation.get "consumes")
  parameters : ∀ parameter ∈ itemsOf (operation.get "parameters"),
    IsPlainParameter parameter ∨
      isBody parameter = true ∧ ((parameter.member? "name").getD (.text "")).isText = true
  oneBody : ((itemsOf (operation.get "parameters")).filter isBody).length ≤ 1

structure IsPlainItem (item : Value) : Prop where
  parameters : ∀ parameter ∈ itemsOf (item.get "parameters"), IsPlainParameter parameter
  operations : ∀ method : Method, IsPlainOperation (item.get method.name)

/-- A description of version 2 without references, with such operations, and with the whole address of
a web server that has no placeholder. -/
structure IsPlain (document : Value) : Prop where
  object : document.isMap = true
  whole : pointers document = []
  host : ∃ host, document.get "host" = .text host ∧ host ≠ "" ∧ '\x7b' ∉ host.toList
  basePath : ∃ path, (document.member? "basePath").getD (.text "") = .text path ∧
    '\x7b' ∉ path.toList
  schemes : ∃ scheme rest, document.get "schemes" = .list ((scheme :: rest).map .text) ∧
    scheme ∈ ["http", "https"]
  consumes : AreTexts (document.get "consumes")
  items : ∀ entry ∈ (document.get "paths").entries, IsPlainItem entry.2

/-! ### What stays under its name -/

theorem entry?_nil (key : Value) : Value.entry? [] key = none := rfl

theorem entry?_append (first second : List (Value × Value)) (key : Value) :
    Value.entry? (first ++ second) key = (Value.entry? first key).or (Value.entry? second key) := by
  simp only [Value.entry?, List.find?_append]
  cases first.find? (·.1.sameKey key) <;> rfl

theorem entry?_leaveOut (names : List String) (entries : List (Value × Value)) (name : String) :
    Value.entry? (leaveOut names entries) (.text name) =
      if name ∈ names then none else Value.entry? entries (.text name) := by
  induction entries with
  | nil => simp [leaveOut, Value.entry?]
  | cons entry rest ih =>
    obtain ⟨key, value⟩ := entry
    simp only [leaveOut] at ih
    simp only [leaveOut, List.filter_cons, Value.entry?_cons]
    split
    next kept =>
      rw [Value.entry?_cons, ih]
      split
      next same =>
        obtain rfl := Value.sameKey_text.mp same
        rw [if_neg]
        intro member
        simp only [Bool.not_eq_true', List.any_eq_false, Value.sameKey_text, Value.text.injEq] at kept
        exact kept name member rfl
      next => rfl
    next dropped =>
      rw [ih]
      split
      next => rfl
      next other =>
        rw [if_neg]
        intro same
        obtain rfl := Value.sameKey_text.mp same
        simp [other] at dropped

theorem entry?_entryOf (value : Value) (name other : String) :
    Value.entry? (entryOf value name) (.text other) =
      if name = other then value.member? name else none := by
  unfold entryOf
  cases value.member? name with
  | none => simp [Value.entry?]
  | some found => simp [Value.entry?]

theorem entry?_mapEntries (f : Value → Value → Value) (entries : List (Value × Value)) (name : String) :
    Value.entry? (entries.map (fun entry => (entry.1, f entry.1 entry.2))) (.text name) =
      (Value.entry? entries (.text name)).map (f (.text name)) := by
  induction entries with
  | nil => rfl
  | cons entry rest ih =>
    obtain ⟨key, value⟩ := entry
    rw [List.map_cons, Value.entry?_cons, Value.entry?_cons, ih]
    split
    next same => rw [Value.sameKey_text.mp same]; rfl
    next => rfl

theorem entry?_entryOf_map (f : Value → Value) (value : Value) (name other : String) :
    Value.entry? ((entryOf value name).map (fun entry => (entry.1, f entry.2))) (.text other) =
      if name = other then (value.member? name).map f else none := by
  rw [entry?_mapEntries (fun _ => f), entry?_entryOf]
  split
  · rfl
  · rfl

/-! ### Parameters -/

theorem member?_upgradeParameter {name : String} (kept : name ∉ ["type", "schema"])
    (parameter : Value) : (upgradeParameter parameter).member? name = parameter.member? name := by
  cases parameter with
  | map entries =>
    have other : "schema" ≠ name := by
      rintro rfl
      simp at kept
    simp only [upgradeParameter, Value.member?, entry?_append, entry?_leaveOut, if_neg kept,
      Value.entry?_cons, Value.sameKey_text, Value.text.injEq, if_neg other, entry?_nil,
      Option.or_none]
  | _ => rfl

theorem get_upgradeParameter {name : String} (kept : name ∉ ["type", "schema"])
    (parameter : Value) : (upgradeParameter parameter).get name = parameter.get name := by
  rw [Value.get, member?_upgradeParameter kept, ← Value.get]

theorem typeOf_upgradeParameter {parameter : Value} (object : parameter.isMap = true) :
    typeOf ((upgradeParameter parameter).get "schema") = typeOf parameter := by
  cases parameter with
  | map entries =>
    have schema : (upgradeParameter (.map entries)).get "schema" =
        .map (entryOf (.map entries) "type") := by
      simp [upgradeParameter, Value.get, Value.member?, entry?_append, entry?_leaveOut,
        Value.entry?_cons]
    rw [schema]
    simp only [typeOf, Value.member?, entry?_entryOf, if_true]
  | _ => simp [Value.isMap] at object

theorem placeOf?_upgradeParameter (parameter : Value) :
    placeOf? (upgradeParameter parameter) = placeOf? parameter := by
  simp only [placeOf?, member?_upgradeParameter (show "in" ∉ ["type", "schema"] by decide)]

theorem parameterKey_upgradeParameter (parameter : Value) :
    parameterKey (upgradeParameter parameter) = parameterKey parameter := by
  simp only [parameterKey, member?_upgradeParameter (show "in" ∉ ["type", "schema"] by decide),
    member?_upgradeParameter (show "name" ∉ ["type", "schema"] by decide)]

theorem readParameter_upgradeParameter (operation : String) (place : Place) {parameter : Value}
    (object : parameter.isMap = true) :
    readParameter operation place (upgradeParameter parameter)
        ((upgradeParameter parameter).get "schema") =
      readParameter operation place parameter parameter := by
  simp only [readParameter, checkParameter, typeOf_upgradeParameter object,
    member?_upgradeParameter (show "name" ∉ ["type", "schema"] by decide),
    get_upgradeParameter (show "required" ∉ ["type", "schema"] by decide),
    get_upgradeParameter (show "description" ∉ ["type", "schema"] by decide)]

theorem exists_text {value : Value} (known : value.isText = true) : ∃ text, value = .text text := by
  cases value with
  | text value => exact ⟨value, rfl⟩
  | _ => simp [Value.isText] at known

theorem isMap_of_get_text {value : Value} {name text : String} (known : value.get name = .text text) :
    value.isMap = true := by
  cases value with
  | map entries => rfl
  | _ => simp [Value.get, Value.member?] at known

namespace IsPlainParameter
variable {parameter : Value} (plain : IsPlainParameter parameter)
include plain

theorem isMap : parameter.isMap = true := by
  obtain ⟨place, -, known⟩ := plain.place
  exact isMap_of_get_text known

theorem isBody : OpenApi.isBody parameter = false := by
  obtain ⟨place, member, known⟩ := plain.place
  simp only [List.mem_cons, List.not_mem_nil, or_false] at member
  rcases member with rfl | rfl | rfl <;> simp [OpenApi.isBody, known]

theorem placeOf? : ∃ place, OpenApi.placeOf? parameter = some place ∧ place ≠ .form := by
  obtain ⟨place, member, known⟩ := plain.place
  have found : parameter.member? "in" = some (.text place) := by
    unfold Value.get at known
    cases given : parameter.member? "in" with
    | none => simp [given] at known
    | some value => rw [given] at known; exact congrArg some known
  simp only [OpenApi.placeOf?, found, Option.getD_some]
  simp only [List.mem_cons, List.not_mem_nil, or_false] at member
  rcases member with rfl | rfl | rfl
  · exact ⟨.query, rfl, by decide⟩
  · exact ⟨.header, rfl, by decide⟩
  · exact ⟨.path, rfl, by decide⟩

theorem hasKey : OpenApi.hasKey parameter = true := by
  obtain ⟨name, known⟩ := exists_text plain.name
  obtain ⟨place, -, written⟩ := plain.place
  have found : (parameter.member? "in").getD (.text "") = .text place := by
    unfold Value.get at written
    cases given : parameter.member? "in" with
    | none => simp [given] at written
    | some value => rw [given] at written; exact written
  simp only [OpenApi.hasKey, known, found, Value.isShowable_text, Bool.and_true]

theorem exists_read (operation : String) (place : Place) :
    ∃ read, readParameter operation place parameter parameter = .ok read := by
  have object := plain.isMap
  have type : (typeOf parameter).isShowable = true := by
    obtain ⟨name, known⟩ := exists_text plain.type
    unfold typeOf
    cases parameter with
    | map entries => simp only [known, Value.isShowable_text]
    | _ => simp [Value.isMap] at object
  obtain ⟨name, named⟩ := exists_text plain.name
  simp only [readParameter, demand, type, if_true, checkParameter, named]
  rcases plain.description with null | text
  · have missing : parameter.get "description" = .null := by
      cases known : parameter.get "description" with
      | null => rfl
      | _ => simp [known, Value.isNull] at null
    rw [missing]
    exact ⟨_, rfl⟩
  · obtain ⟨description, known⟩ := exists_text text
    rw [known]
    exact ⟨_, rfl⟩

end IsPlainParameter

def IsPlainInput (parameter : Value) : Prop :=
  IsPlainParameter parameter ∨
    isBody parameter = true ∧ ((parameter.member? "name").getD (.text "")).isText = true

section inputs
variable {parameter : Value} {parameters : List Value}

theorem get_of_isBody (body : isBody parameter = true) : parameter.get "in" = .text "body" := by
  unfold isBody at body
  split at body
  next known => exact known
  next => simp at body

theorem IsPlainInput.isMap (plain : IsPlainInput parameter) : parameter.isMap = true := by
  rcases plain with plain | ⟨body, -⟩
  · exact plain.isMap
  · exact isMap_of_get_text (get_of_isBody body)

theorem readParameters2_plain (plain : IsPlainParameter parameter) (operation : String)
    (types : List String) (before : Option Body) {place : Place}
    (known : placeOf? parameter = some place) (other : place ≠ .form) :
    readParameters2 operation types before (parameter :: parameters) = (do
      let first ← readParameter operation place parameter parameter
      let (others, body) ← readParameters2 operation types before parameters
      return (first :: others, body)) := by
  obtain ⟨written, member, given⟩ := plain.place
  simp only [List.mem_cons, List.not_mem_nil, or_false] at member
  rcases member with rfl | rfl | rfl <;> simp [readParameters2, given, known, other]

theorem readParameters2_body (body : isBody parameter = true) (operation : String)
    (types : List String) (before : Option Body) :
    readParameters2 operation types before (parameter :: parameters) = (do
      let body ← operationIssues operation
        (checkBody parameter (pickContentType types) (parameter.get "schema")).toExcept
      readParameters2 operation types (some body) parameters) := by
  simp only [readParameters2, get_of_isBody body]

theorem readParameters3_plain (plain : IsPlainParameter parameter) (operation : String)
    {place : Place} (known : placeOf? parameter = some place) (other : place ≠ .form) :
    readParameters3 operation (upgradeParameter parameter :: parameters) = (do
      let first ← readParameter operation place parameter parameter
      return first :: (← readParameters3 operation parameters)) := by
  rw [← readParameter_upgradeParameter operation place plain.isMap]
  cases place with
  | form => exact absurd rfl other
  | _ => simp only [readParameters3, placeOf?_upgradeParameter, known]

theorem exists_readParameters3 (operation : String)
    (plain : ∀ parameter ∈ parameters, IsPlainParameter parameter) :
    ∃ read, readParameters3 operation (parameters.map upgradeParameter) = .ok read := by
  induction parameters with
  | nil => exact ⟨[], rfl⟩
  | cons parameter rest ih =>
    obtain ⟨first, others⟩ := List.forall_mem_cons.mp plain
    obtain ⟨place, known, other⟩ := first.placeOf?
    obtain ⟨read, reads⟩ := first.exists_read operation place
    obtain ⟨later, follows⟩ := ih others
    refine ⟨read :: later, ?_⟩
    rw [List.map_cons, readParameters3_plain first operation known other, reads, follows]
    rfl

def readBody2 (operation : String) (types : List String) (before : Option Body)
    (parameter : Option Value) : Except Refusal (Option Body) :=
  match parameter with
  | none => .ok before
  | some parameter => some <$> operationIssues operation
      (checkBody parameter (pickContentType types) (parameter.get "schema")).toExcept

theorem readParameters2_eq (operation : String) (types : List String) (before : Option Body)
    (plain : ∀ parameter ∈ parameters, IsPlainInput parameter)
    (oneBody : (parameters.filter isBody).length ≤ 1) :
    readParameters2 operation types before parameters = (do
      let read ← readParameters3 operation
        ((parameters.filter (!isBody ·)).map upgradeParameter)
      return (read, ← readBody2 operation types before (parameters.find? isBody))) := by
  induction parameters generalizing before with
  | nil => rfl
  | cons parameter rest ih =>
    obtain ⟨first, others⟩ := List.forall_mem_cons.mp plain
    rcases first with first | ⟨body, -⟩
    · have noBody := first.isBody
      obtain ⟨place, known, other⟩ := first.placeOf?
      rw [List.filter_cons_of_neg (by simp [noBody])] at oneBody
      rw [List.filter_cons_of_pos (by simp [noBody]), List.find?_cons_of_neg (by simp [noBody]),
        List.map_cons, readParameters2_plain first operation types before known other,
        readParameters3_plain first operation known other, ih before others oneBody]
      simp only [bind_assoc, pure_bind]
    · rw [List.filter_cons_of_pos body] at oneBody
      rw [List.filter_cons_of_neg (by simp [body]), List.find?_cons_of_pos body,
        readParameters2_body body]
      -- There is no other body, so that the rest is read without a failure.
      have none : rest.filter isBody = [] := List.eq_nil_of_length_eq_zero (by simpa using oneBody)
      have noBody : ∀ other ∈ rest, isBody other = false := by
        simpa [List.filter_eq_nil_iff] using none
      have plain : ∀ other ∈ rest, IsPlainParameter other := by
        intro other member
        refine (others other member).resolve_right fun ⟨body, _⟩ => ?_
        simp [noBody other member] at body
      have kept : rest.filter (!isBody ·) = rest :=
        List.filter_eq_self.mpr fun other member => by simp [noBody other member]
      have unfound : rest.find? isBody = Option.none :=
        List.find?_eq_none.mpr fun other member => by simp [noBody other member]
      obtain ⟨read, reads⟩ := exists_readParameters3 operation plain
      rw [kept, reads]
      simp only [ih _ others (by simp [none]), kept, reads, unfound, readBody2]
      cases operationIssues operation
        (checkBody parameter (pickContentType types) (parameter.get "schema")).toExcept <;> rfl

end inputs

/-! ### Operations -/

section operations
variable (consumes : List String)

theorem member?_upgradeOperation (entries : List (Value × Value)) (name : String) :
    (upgradeOperation consumes (.map entries)).member? name =
      ((if name ∈ ["parameters", "consumes", "requestBody"] then none
          else Value.entry? entries (.text name)).or
        (if "parameters" = name then (Value.entry? entries (.text "parameters")).map
          upgradeParameters else none)).or
        (if "requestBody" = name then (bodyOf? (.map entries)).map
          (upgradeBody (typesOf consumes (.map entries))) else none) := by
  simp only [upgradeOperation, Value.member?, entry?_append, entry?_leaveOut,
    entry?_entryOf_map]
  congr 1
  cases bodyOf? (.map entries) with
  | none => simp [entry?_nil]
  | some body => simp [Value.entry?_cons, entry?_nil]

theorem get_upgradeOperation {name : String}
    (kept : name ∉ ["parameters", "consumes", "requestBody"]) (operation : Value) :
    (upgradeOperation consumes operation).get name = operation.get name := by
  cases operation with
  | map entries =>
    have apart : "parameters" ≠ name ∧ "requestBody" ≠ name := by
      constructor <;> (rintro rfl; simp at kept)
    simp only [Value.get, member?_upgradeOperation, if_neg kept, if_neg apart.1, if_neg apart.2,
      Option.or_none]
    rfl
  | _ => rfl

theorem parameters_upgradeOperation (operation : Value) :
    (upgradeOperation consumes operation).get "parameters" =
      upgradeParameters (operation.get "parameters") := by
  cases operation with
  | map entries =>
    simp only [Value.get, member?_upgradeOperation]
    simp only [Value.member?]
    cases Value.entry? entries (.text "parameters") <;> rfl
  | _ => rfl

theorem requestBody_upgradeOperation {operation : Value} (object : operation.isMap = true) :
    (upgradeOperation consumes operation).get "requestBody" =
      ((bodyOf? operation).map (upgradeBody (typesOf consumes operation))).getD .null := by
  cases operation with
  | map entries => simp [Value.get, member?_upgradeOperation]
  | _ => simp [Value.isMap] at object

theorem objectOf_upgradeOperation (part : String) (operation : Value) :
    objectOf part (upgradeOperation consumes operation) =
      (objectOf part operation).map (upgradeOperation consumes) := by
  cases operation <;> rfl

end operations

theorem objectsOf_upgradeParameters (part : String) {parameters : Value}
    (objects : ∀ parameter ∈ itemsOf parameters, parameter.isMap = true) :
    objectsOf part (upgradeParameters parameters) =
      (objectsOf part parameters).map (fun items =>
        (items.filter (!isBody ·)).map upgradeParameter) := by
  cases parameters with
  | list items =>
    have all : items.all Value.isMap = true := List.all_eq_true.mpr objects
    have upgraded : ((items.filter (!isBody ·)).map upgradeParameter).all Value.isMap = true := by
      refine List.all_eq_true.mpr fun parameter member => ?_
      obtain ⟨origin, known, rfl⟩ := List.mem_map.mp member
      have object := objects origin (List.mem_filter.mp known).1
      cases origin with
      | map entries => rfl
      | _ => simp [Value.isMap] at object
    simp only [upgradeParameters, objectsOf, all, upgraded, if_true, Except.map]
  | _ => rfl

theorem itemsOf_of_objectsOf {part : String} {value : Value} {items : List Value}
    (known : objectsOf part value = .ok items) : itemsOf value = items := by
  unfold objectsOf at known
  split at known
  next => exact Except.ok.inj known
  next =>
    split at known
    next => exact Except.ok.inj known
    next => simp at known
  next => simp at known

theorem textsOf_of_areTexts (part : String) {value : Value} (texts : AreTexts value) :
    textsOf part value = .ok (textsIn value) := by
  cases texts with
  | missing => rfl
  | texts texts =>
    have all : (texts.map Value.text).all Value.isText = true := by simp [Value.isText]
    simp only [textsOf, all, if_true, textsIn, itemsOf]

theorem readBody3_upgradeBody (operation : String) (types : List String) (parameter : Value) :
    readBody3 operation (upgradeBody types parameter) =
      readBody2 operation types none (some parameter) := by
  have content : (upgradeBody types parameter).get "content" =
      .map [(.text (pickContentType types), .map (entryOf parameter "schema"))] := by
    simp [upgradeBody, Value.get, Value.member?, entry?_append, entry?_entryOf, Value.entry?_cons]
  have required : (upgradeBody types parameter).get "required" = parameter.get "required" := by
    simp [upgradeBody, Value.get, Value.member?, entry?_append, entry?_entryOf, Value.entry?_cons,
      entry?_nil]
  have description : (upgradeBody types parameter).get "description" =
      parameter.get "description" := by
    simp [upgradeBody, Value.get, Value.member?, entry?_append, entry?_entryOf, Value.entry?_cons,
      entry?_nil]
  have schema : (Value.map (entryOf parameter "schema")).get "schema" = parameter.get "schema" := by
    simp [Value.get, Value.member?, entry?_entryOf]
  have picked : pickContentType [pickContentType types] = pickContentType types := by
    rw [pickContentType]
    split
    next other found =>
      exact List.mem_singleton.mp (List.mem_of_find?_eq_some found)
    next => rfl
  have media : (Value.map [(.text (pickContentType types), .map (entryOf parameter "schema"))]).get
      (pickContentType types) = .map (entryOf parameter "schema") := by
    simp [Value.get, Value.member?, Value.entry?_cons]
  have object : ∀ part, objectOf part (upgradeBody types parameter) =
      .ok (upgradeBody types parameter) := fun _ => rfl
  simp only [readBody3, object, content, bind, Except.bind]
  simp [objectOf, demand, List.all_cons, Value.display, picked, media, checkBody, required, description,
    schema, readBody2, Value.isShowable]

theorem IsPlainParameter.key_ne {parameter body : Value} (plain : IsPlainParameter parameter)
    (other : OpenApi.isBody body = true) : parameterKey parameter ≠ parameterKey body := by
  have place : ∀ {value : Value} {name : String}, value.get "in" = .text name →
      (parameterKey value).2 = name := by
    intro value name known
    unfold Value.get at known
    unfold parameterKey
    cases given : value.member? "in" with
    | none => simp [given] at known
    | some found =>
      rw [given] at known
      obtain rfl : found = .text name := known
      rfl
  obtain ⟨name, member, known⟩ := plain.place
  intro same
  have equal := congrArg Prod.snd same
  rw [place known, place (get_of_isBody other)] at equal
  subst equal
  simp at member

theorem mergeParameters_upgrade {ofPath own : List Value}
    (plain : ∀ parameter ∈ ofPath, IsPlainParameter parameter) :
    mergeParameters (ofPath.map upgradeParameter)
        ((own.filter (!isBody ·)).map upgradeParameter) =
      ((mergeParameters ofPath own).filter (!isBody ·)).map upgradeParameter := by
  have kept : (ofPath.map upgradeParameter).filter (fun parameter =>
      !(((own.filter (!isBody ·)).map upgradeParameter).map parameterKey).contains
        (parameterKey parameter)) =
      (ofPath.filter (fun parameter =>
        !(own.map parameterKey).contains (parameterKey parameter))).map upgradeParameter := by
    rw [List.filter_map]
    congr 1
    apply List.filter_congr
    intro parameter member
    simp only [Function.comp_apply, parameterKey_upgradeParameter, List.map_map,
      Function.comp_def, Bool.not_inj_iff]
    rw [Bool.eq_iff_iff]
    simp only [List.contains_iff_mem, List.mem_map, List.mem_filter]
    constructor
    · rintro ⟨other, ⟨member, -⟩, same⟩
      exact ⟨other, member, same⟩
    · rintro ⟨other, member', same⟩
      refine ⟨other, ⟨member', ?_⟩, same⟩
      by_contra body
      exact (plain parameter member).key_ne (by simpa using body) same.symm
  have noBody : (ofPath.filter (fun parameter =>
      !(own.map parameterKey).contains (parameterKey parameter))).filter (!isBody ·) =
      ofPath.filter (fun parameter =>
        !(own.map parameterKey).contains (parameterKey parameter)) := by
    refine List.filter_eq_self.mpr fun parameter member => ?_
    simp [(plain parameter (List.mem_filter.mp member).1).isBody]
  simp only [mergeParameters, kept, List.filter_append, List.map_append, noBody]

theorem readInput_upgrade (consumes : List String) (operation : String) {value : Value}
    {ofPath : List Value} (object : value.isMap = true) (plain : IsPlainOperation value)
    (plainPath : ∀ parameter ∈ ofPath, IsPlainParameter parameter) :
    let own := itemsOf (value.get "parameters")
    readInput ⟨.two, consumes⟩ operation value (mergeParameters ofPath own) =
      readInput ⟨.three, []⟩ operation (upgradeOperation consumes value)
        (mergeParameters (ofPath.map upgradeParameter)
          ((own.filter (!isBody ·)).map upgradeParameter)) := by
  intro own
  have kept : ∀ parameter ∈ ofPath.filter (fun parameter =>
      !(own.map parameterKey).contains (parameterKey parameter)), IsPlainParameter parameter :=
    fun parameter member => plainPath parameter (List.mem_filter.mp member).1
  have each : ∀ parameter ∈ mergeParameters ofPath own, IsPlainInput parameter := by
    intro parameter member
    rcases List.mem_append.mp member with old | new
    · exact .inl (kept parameter old)
    · exact plain.parameters parameter new
  have noBody : ∀ parameter ∈ ofPath.filter (fun parameter =>
      !(own.map parameterKey).contains (parameterKey parameter)), ¬isBody parameter = true :=
    fun parameter member => by simp [(kept parameter member).isBody]
  have bodies : (mergeParameters ofPath own).filter isBody = own.filter isBody := by
    simp only [mergeParameters, List.filter_append, List.filter_eq_nil_iff.mpr noBody,
      List.nil_append]
  have found : (mergeParameters ofPath own).find? isBody = bodyOf? value := by
    simp only [mergeParameters, List.find?_append, List.find?_eq_none.mpr noBody, Option.none_or]
    rfl
  have read3 : readBody3 operation ((upgradeOperation consumes value).get "requestBody") =
      readBody2 operation (typesOf consumes value) none (bodyOf? value) := by
    rw [requestBody_upgradeOperation consumes object]
    cases bodyOf? value with
    | none => rfl
    | some body => exact readBody3_upgradeBody _ _ _
  simp only [readInput, textsOf_of_areTexts _ plain.consumes, mergeParameters_upgrade plainPath,
    read3, ← found]
  exact readParameters2_eq operation (typesOf consumes value) none each
    (bodies ▸ plain.oneBody)

theorem IsPlainInput.hasKey {parameter : Value} (plain : IsPlainInput parameter) :
    OpenApi.hasKey parameter = true := by
  rcases plain with plain | ⟨body, name⟩
  · exact plain.hasKey
  · obtain ⟨name, known⟩ := exists_text name
    have place : (parameter.member? "in").getD (.text "") = .text "body" := by
      have written := get_of_isBody body
      unfold Value.get at written
      cases given : parameter.member? "in" with
      | none => simp [given] at written
      | some value => rw [given] at written; exact written
    simp only [OpenApi.hasKey, known, place, Value.isShowable_text, Bool.and_true]

theorem hasKey_upgradeParameter (parameter : Value) :
    hasKey (upgradeParameter parameter) = hasKey parameter := by
  simp only [hasKey, member?_upgradeParameter (show "in" ∉ ["type", "schema"] by decide),
    member?_upgradeParameter (show "name" ∉ ["type", "schema"] by decide)]

theorem checkOperation_upgradeOperation (consumes : List String) (path : Value) (method : Method)
    (value : Value) (parameters : List Parameter) (body : Option Body) :
    checkOperation path method (upgradeOperation consumes value) parameters body =
      checkOperation path method value parameters body := by
  simp only [checkOperation, get_upgradeOperation consumes (show "operationId" ∉ _ by decide),
    get_upgradeOperation consumes (show "summary" ∉ _ by decide),
    get_upgradeOperation consumes (show "description" ∉ _ by decide)]

theorem isMap_objectOf {part : String} {value object : Value}
    (read : objectOf part value = .ok object) : object.isMap = true := by
  unfold objectOf at read
  split at read
  · exact Except.ok.inj read ▸ rfl
  · exact Except.ok.inj read ▸ rfl
  · cases read

theorem IsPlainOperation.of_objectOf {part : String} {value object : Value}
    (plain : IsPlainOperation value) (read : objectOf part value = .ok object) :
    IsPlainOperation object where
  consumes := by simpa only [get_objectOf read] using plain.consumes
  parameters := by simpa only [get_objectOf read] using plain.parameters
  oneBody := by simpa only [get_objectOf read] using plain.oneBody

theorem readOperation_upgrade (consumes : List String) (path : Value) {ofPath : List Value}
    (method : Method) {value : Value} (plain : IsPlainOperation value)
    (plainPath : ∀ parameter ∈ ofPath, IsPlainParameter parameter) :
    readOperation ⟨.two, consumes⟩ path ofPath method value =
      readOperation ⟨.three, []⟩ path (ofPath.map upgradeParameter) method
        (upgradeOperation consumes value) := by
  simp only [readOperation]
  generalize s!"{method.upperName} {path.display}" = operation
  rw [objectOf_upgradeOperation]
  cases read : objectOf operation value with
  | error => rfl
  | ok object =>
    have plainObject := plain.of_objectOf read
    have inputs : ∀ parameter ∈ itemsOf (object.get "parameters"), IsPlainInput parameter :=
      plainObject.parameters
    simp only [Except.map, bind, Except.bind, parameters_upgradeOperation,
      objectsOf_upgradeParameters _ fun parameter member => (inputs parameter member).isMap]
    cases read' : objectsOf s!"{operation} parameters" (object.get "parameters") with
    | error => rfl
    | ok own =>
      obtain rfl := itemsOf_of_objectsOf read'
      have keys : (itemsOf (object.get "parameters") ++ ofPath).all hasKey = true := by
        simp only [List.all_append, Bool.and_eq_true, List.all_eq_true]
        exact ⟨fun parameter member => (inputs parameter member).hasKey,
          fun parameter member => (plainPath parameter member).hasKey⟩
      have upgradedKeys : ((((itemsOf (object.get "parameters")).filter (!isBody ·)).map
          upgradeParameter) ++ ofPath.map upgradeParameter).all hasKey = true := by
        simp only [List.all_append, Bool.and_eq_true, List.all_map, List.all_eq_true,
          Function.comp_apply, hasKey_upgradeParameter]
        exact ⟨fun parameter member => (inputs parameter (List.mem_filter.mp member).1).hasKey,
          fun parameter member => (plainPath parameter member).hasKey⟩
      have input := readInput_upgrade consumes operation (isMap_objectOf read) plainObject
        plainPath
      simp only at input
      simp only [demand_of keys, demand_of upgradedKeys, input, checkOperation_upgradeOperation]

/-! ### Paths -/

section paths
variable (consumes : List String)

theorem upgradePart_null (key : Value) : upgradePart consumes key .null = .null := by
  unfold upgradePart
  split
  · rfl
  · split <;> rfl

theorem upgradePart_parameters (value : Value) :
    upgradePart consumes (.text "parameters") value = upgradeParameters value :=
  if_pos (Value.sameKey_text.mpr rfl)

theorem upgradePart_name (method : Method) (value : Value) :
    upgradePart consumes (.text method.name) value = upgradeOperation consumes value := by
  have other : Value.sameKey (.text method.name) (.text "parameters") = false := by
    cases method <;> decide
  have known : Method.all.any (fun other =>
      Value.sameKey (.text method.name) (.text other.name)) = true := by
    cases method <;> decide
  simp only [upgradePart, other, known, Bool.false_eq_true, if_false, if_true]

theorem get_upgradeItem (item : Value) (name : String) :
    (upgradeItem consumes item).get name = upgradePart consumes (.text name) (item.get name) := by
  cases item with
  | map entries =>
    simp only [upgradeItem, Value.get, Value.member?, entry?_mapEntries]
    cases Value.entry? entries (.text name) with
    | none => exact (upgradePart_null consumes _).symm
    | some found => rfl
  | _ => exact (upgradePart_null consumes _).symm

theorem isNull_upgradeOperation (operation : Value) :
    (upgradeOperation consumes operation).isNull = operation.isNull := by
  cases operation <;> rfl

theorem objectOf_upgradeItem (part : String) (item : Value) :
    objectOf part (upgradeItem consumes item) = (objectOf part item).map (upgradeItem consumes) := by
  cases item <;> rfl

theorem readPath_upgrade (path : Value) {item : Value} (plain : IsPlainItem item) :
    readPath ⟨.two, consumes⟩ path item =
      readPath ⟨.three, []⟩ path (upgradeItem consumes item) := by
  simp only [readPath]
  rw [objectOf_upgradeItem]
  cases read : objectOf s!"paths['{path.display}']" item with
  | error => rfl
  | ok object =>
    have noBody : ∀ parameter ∈ itemsOf (object.get "parameters"), isBody parameter = false := by
      rw [get_objectOf read]
      exact fun parameter member => (plain.parameters parameter member).isBody
    have objects : ∀ parameter ∈ itemsOf (object.get "parameters"), parameter.isMap = true := by
      rw [get_objectOf read]
      exact fun parameter member => (plain.parameters parameter member).isMap
    simp only [Except.map, bind, Except.bind, get_upgradeItem, upgradePart_parameters,
      upgradePart_name, isNull_upgradeOperation, objectsOf_upgradeParameters _ objects]
    cases read' : objectsOf s!"paths['{path.display}'].parameters" (object.get "parameters") with
    | error => rfl
    | ok parameters =>
      obtain rfl := itemsOf_of_objectsOf read'
      have kept : (itemsOf (object.get "parameters")).filter (!isBody ·) =
          itemsOf (object.get "parameters") :=
        List.filter_eq_self.mpr fun parameter member => by simp [noBody parameter member]
      have each : ∀ method : Method, readOperation ⟨.two, consumes⟩ path
          (itemsOf (object.get "parameters")) method (object.get method.name) =
          readOperation ⟨.three, []⟩ path
            ((itemsOf (object.get "parameters")).map upgradeParameter) method
            (upgradeOperation consumes (object.get method.name)) := by
        intro method
        rw [get_objectOf read, get_objectOf read]
        exact readOperation_upgrade consumes path method (plain.operations method) plain.parameters
      simp only [kept, each]

theorem entries_upgradePaths (paths : Value) :
    (upgradePaths consumes paths).entries =
      paths.entries.map (fun entry => (entry.1, upgradeItem consumes entry.2)) := by
  cases paths <;> rfl

theorem objectOf_upgradePaths (part : String) (paths : Value) :
    objectOf part (upgradePaths consumes paths) =
      (objectOf part paths).map (upgradePaths consumes) := by
  cases paths <;> rfl

end paths

end ToolGraph.OpenApi
