import ToolGraph.Schema

/-! Operations of an interface description: what can be called, and with which arguments. -/
namespace ToolGraph.OpenApi

inductive Version where
  | two
  | three
  deriving DecidableEq, Repr

inductive Method where
  | get
  | put
  | post
  | delete
  | options
  | head
  | patch
  | trace
  deriving DecidableEq, Repr

namespace Method

def all : List Method := [get, put, post, delete, options, head, patch, trace]

def name : Method → String
  | get => "get"
  | put => "put"
  | post => "post"
  | delete => "delete"
  | options => "options"
  | head => "head"
  | patch => "patch"
  | trace => "trace"

def upperName : Method → String
  | get => "GET"
  | put => "PUT"
  | post => "POST"
  | delete => "DELETE"
  | options => "OPTIONS"
  | head => "HEAD"
  | patch => "PATCH"
  | trace => "TRACE"

end Method

/-- Where a parameter goes in a request. -/
inductive Place where
  | query
  | header
  | path
  | cookie
  | form
  deriving DecidableEq, Repr

def Place.read? (written : Value) : Option Place :=
  match written with
  | .text name =>
    [("query", Place.query), ("header", .header), ("path", .path), ("cookie", .cookie),
      ("formData", .form)].lookup name
  | _ => none

structure Parameter where
  name : String
  place : Place
  required : Bool
  description : Option String
  typeName : String
  deriving DecidableEq, Repr

structure Body where
  required : Bool := false
  description : Option String := none
  contentType : String
  schema : Option (Entries String Value) := none

structure Operation where
  path : String
  method : Method
  id : Option String
  summary : Option String
  description : Option String
  parameters : List Parameter
  body : Option Body

/-- What stops the reading of a description: a fault of it, or a whole number that has to be shown
and is too long to be written. -/
inductive Refusal where
  | fault (cause : ConversionFault)
  | hugeInteger
  deriving DecidableEq, Repr

/-! ### Parts of a description -/

/-- A part that must be an object. A missing one is empty. -/
def objectOf (part : String) : Value → Except Refusal Value
  | .null => .ok (.map [])
  | .map entries => .ok (.map entries)
  | value => .error (.fault (.mustBeObject part value.kindName))

/-- A part that must be a list of objects. A missing one is empty. -/
def objectsOf (part : String) : Value → Except Refusal (List Value)
  | .null => .ok []
  | .list items =>
    if items.all Value.isMap then .ok items else .error (.fault (.mustBeList part .objects))
  | _ => .error (.fault (.mustBeList part .objects))

/-- A part that must be a list of texts. A missing one is empty. -/
def textsOf (part : String) : Value → Except Refusal (List String)
  | .null => .ok []
  | .list items =>
    if items.all Value.isText then .ok (items.map Value.display)
    else .error (.fault (.mustBeList part .strings))
  | _ => .error (.fault (.mustBeList part .strings))

/-- Goes on if what is shown next has a text. -/
def demand (showable : Bool) : Except Refusal Unit :=
  if showable then .ok () else .error .hugeInteger

def operationIssues {α : Type} (operation : String) (result : Except (List Issue) α) :
    Except Refusal α :=
  result.mapError (fun issues => .fault (.invalidOperation operation issues))

/-! ### Parameters -/

def typeOf (schema : Value) : Value :=
  match schema with
  | .map _ =>
    match (schema.member? "type").getD (.text "string") with
    | .list types => (types.find? (fun type => !type.equals (.text "null"))).getD (.text "string")
    | type => type
  | _ => .text "string"

/-- The name and the place of a parameter, which it shares with no other one of its operation. -/
def parameterKey (parameter : Value) : String × String :=
  (((parameter.member? "name").getD (.text "")).display,
    ((parameter.member? "in").getD (.text "")).display)

def hasKey (parameter : Value) : Bool :=
  ((parameter.member? "name").getD (.text "")).isShowable &&
    ((parameter.member? "in").getD (.text "")).isShowable

def mergeParameters (ofPath own : List Value) : List Value :=
  let replaced := own.map parameterKey
  ofPath.filter (fun parameter => !replaced.contains (parameterKey parameter)) ++ own

def placeOf? (parameter : Value) : Option Place :=
  Place.read? ((parameter.member? "in").getD (.text "query"))

/-- Reads a parameter. One in the path is always required. -/
def checkParameter (place : Place) (parameter schema : Value) : Checked Parameter :=
  (fun name description =>
    { name
      place
      required := place == .path || (parameter.get "required").isPresent
      description
      typeName := (typeOf schema).display })
    <$> .within (.key "name") (Schema.text ((parameter.member? "name").getD (.text "")))
    <*> .within (.key "description") (Schema.optional Schema.text (parameter.get "description"))

/-- Reads the body that `holder` describes. -/
def checkBody (holder : Value) (contentType : String) (schema : Value) : Checked Body :=
  (fun description schema =>
    { required := (holder.get "required").isPresent
      description
      contentType
      schema })
    <$> .within (.key "description") (Schema.optional Schema.text (holder.get "description"))
    <*> .within (.key "schema") (Schema.optional (Schema.table Schema.any) schema)

def pickContentType (types : List String) : String :=
  match types.find? (fun type => Text.contains "json".toList type.toList) with
  | some type => type
  | none => types.headD "application/json"

def formType (types : List String) : String :=
  (types.find? (fun type => Text.contains "form".toList type.toList)).getD
    "application/x-www-form-urlencoded"

/-- Reads a parameter of an operation. The name of its type must have a text. -/
def readParameter (operation : String) (place : Place) (parameter schema : Value) :
    Except Refusal Parameter := do
  demand (typeOf schema).isShowable
  operationIssues operation (checkParameter place parameter schema).toExcept

/-- The parameters of version 3. One without a known place or with that of a form is left out. -/
def readParameters3 (operation : String) : List Value → Except Refusal (List Parameter)
  | [] => .ok []
  | parameter :: rest =>
    match placeOf? parameter with
    | none | some .form => readParameters3 operation rest
    | some place => do
      let first ← readParameter operation place parameter (parameter.get "schema")
      return first :: (← readParameters3 operation rest)

/-- The parameters of version 2 and the body, which is among them: the last body counts, and form
fields bring a body with them if there is none before. -/
def readParameters2 (operation : String) (consumes : List String) (body : Option Body) :
    List Value → Except Refusal (List Parameter × Option Body)
  | [] => .ok ([], body)
  | parameter :: rest =>
    match parameter.get "in" with
    | .text "body" => do
      let body ← operationIssues operation
        (checkBody parameter (pickContentType consumes) (parameter.get "schema")).toExcept
      readParameters2 operation consumes (some body) rest
    | _ =>
      match placeOf? parameter with
      | none => readParameters2 operation consumes body rest
      | some place => do
        let body :=
          if place = .form ∧ body.isNone then some { contentType := formType consumes } else body
        let first ← readParameter operation place parameter parameter
        let (others, body) ← readParameters2 operation consumes body rest
        return (first :: others, body)

/-! ### Operations -/

def readBody3 (operation : String) (body : Value) : Except Refusal (Option Body) := do
  let body ← objectOf s!"{operation} requestBody" body
  let content ← objectOf s!"{operation} requestBody.content" (body.get "content")
  match content with
  | .map [] => return none
  | .map entries =>
    demand (entries.all (·.1.isShowable))
    let contentType := pickContentType (entries.map (·.1.display))
    let media ← objectOf s!"{operation} requestBody.content['{contentType}']"
      (content.get contentType)
    some <$> operationIssues operation
      (checkBody body contentType (media.get "schema")).toExcept
  | _ => return none

/-- What a description says once for all operations. -/
structure Defaults where
  version : Version
  consumes : List String

def readInput (defaults : Defaults) (operation : String) (value : Value)
    (parameters : List Value) : Except Refusal (List Parameter × Option Body) :=
  match defaults.version with
  | .two => do
    let own ← textsOf s!"{operation} consumes" (value.get "consumes")
    readParameters2 operation (if own.isEmpty then defaults.consumes else own) none parameters
  | .three => do
    let parameters ← readParameters3 operation parameters
    return (parameters, ← readBody3 operation (value.get "requestBody"))

def checkOperation (path : Value) (method : Method) (value : Value)
    (parameters : List Parameter) (body : Option Body) : Checked Operation :=
  (fun path id summary description =>
    { path, method, id, summary, description, parameters, body })
    <$> .within (.key "path") (Schema.text path)
    <*> .within (.key "operation_id") (Schema.optional Schema.text (value.get "operationId"))
    <*> .within (.key "summary") (Schema.optional Schema.text (value.get "summary"))
    <*> .within (.key "description") (Schema.optional Schema.text (value.get "description"))

def readOperation (defaults : Defaults) (path : Value) (ofPath : List Value) (method : Method)
    (value : Value) : Except Refusal Operation := do
  let operation := s!"{method.upperName} {path.display}"
  let value ← objectOf operation value
  let own ← objectsOf s!"{operation} parameters" (value.get "parameters")
  demand ((own ++ ofPath).all hasKey)
  let (parameters, body) ← readInput defaults operation value (mergeParameters ofPath own)
  operationIssues operation (checkOperation path method value parameters body).toExcept

def readPath (defaults : Defaults) (path item : Value) : Except Refusal (List Operation) := do
  demand path.isShowable
  let item ← objectOf s!"paths['{path.display}']" item
  let parameters ← objectsOf s!"paths['{path.display}'].parameters" (item.get "parameters")
  (Method.all.filter (fun method => !(item.get method.name).isNull)).mapM (fun method =>
    readOperation defaults path parameters method (item.get method.name))

def readOperations (version : Version) (spec : Value) : Except Refusal (List Operation) := do
  let consumes ← textsOf "consumes" (spec.get "consumes")
  let paths ← objectOf "paths" (spec.get "paths")
  let operations ← paths.entries.mapM (fun entry =>
    readPath ⟨version, consumes⟩ entry.1 entry.2)
  return operations.flatten

end ToolGraph.OpenApi
