import ToolGraph.Block.Parser
import ToolGraph.OpenApi.Inline
import ToolGraph.OpenApi.Server
import ToolGraph.Text.Alphanumeric

/-!
The tools of an interface description. The root tool lists all operations and comes first; each
operation follows as a tool of its own, whose instructions tell the runner what to send.
-/
namespace ToolGraph.OpenApi
open Text

/-- The word that starts the instructions of an operation. -/
def directive : String := "#!sys.openapi"

def bodyArgument : String := "requestBodyContent"

/-- A tool name made of a title: letters and digits, with underscores for all else inside. -/
def titleName (title : String) : String :=
  match trimWhile (· == '_') (title.toList.map (fun c => if isAlphanumeric c then c else '_')) with
  | [] => "api"
  | c :: name => String.ofList (c :: name)

def operationName (operation : Operation) : String :=
  let id := operation.id.getD ""
  if !id.isEmpty then id
  else
    let path := (trimWhile (· == '/') operation.path.toList).filterMap (fun c =>
      if c = '/' then some '_' else if c = '\x7b' ∨ c = '\x7d' then none else some c)
    operation.method.name ++ "_" ++ (if path.isEmpty then "root" else String.ofList path)

/-! ### Arguments -/

structure ArgumentFields where
  properties : List (Value × Value)
  required : List String

namespace ArgumentFields

def propertyOf (parameter : Parameter) : Value :=
  let description := parameter.description.getD ""
  .map ((if description.isEmpty then [] else [(.text "description", .text description)]) ++
    [(.text "type", .text parameter.typeName)])

/-- Adds a parameter. The last one of a name counts. -/
def addParameter (fields : ArgumentFields) (parameter : Parameter) : ArgumentFields :=
  { properties := Value.putEntry fields.properties (.text parameter.name) (propertyOf parameter)
    required := fields.required ++ (if parameter.required then [parameter.name] else []) }

/-- Adds a property unless there is one of its name. -/
def addProperty (properties : List (Value × Value)) (entry : Value × Value) :
    List (Value × Value) :=
  if (Value.entry? properties entry.1).isSome then properties else properties ++ [entry]

def addName (names : List String) (name : String) : List String :=
  if names.contains name then names else names ++ [name]

def requiredNames (required : Bool) (schema : Value) : List Value :=
  match required, schema.get "required" with
  | true, .list names => names
  | _, _ => []

def objectProperties? (schema : Value) : Option (List (Value × Value)) :=
  match ((schema.member? "type").getD (.text "object")).equals (.text "object"),
      schema.get "properties" with
  | true, .map properties => some properties
  | _, _ => none

/-- Adds the properties of a body that is an object, and the names that it requires if it is
required itself. -/
def addObject (fields : ArgumentFields) (required : Bool) (schema : Value)
    (properties : List (Value × Value)) : ArgumentFields :=
  { properties := properties.foldl addProperty fields.properties
    required := ((requiredNames required schema).map Value.display).foldl addName fields.required }

def addWhole (fields : ArgumentFields) (required : Bool) (schema : Value) : ArgumentFields :=
  { properties := Value.putEntry fields.properties (.text bodyArgument) schema
    required := fields.required ++ (if required then [bodyArgument] else []) }

def schemaOf (entries : Entries String Value) : Value :=
  .map (entries.map (fun entry => (.text entry.1, entry.2)))

def addBody (fields : ArgumentFields) (body : Body) : ArgumentFields :=
  match body.schema with
  | none | some [] => fields
  | some entries =>
    match objectProperties? (schemaOf entries) with
    | some properties => fields.addObject body.required (schemaOf entries) properties
    | none => fields.addWhole body.required (schemaOf entries)

def hasNames (body : Body) : Bool :=
  let schema := schemaOf (body.schema.getD [])
  (objectProperties? schema).isNone || (requiredNames body.required schema).all Value.isShowable

def ofOperation (operation : Operation) : ArgumentFields :=
  let fields := operation.parameters.foldl addParameter ⟨[], []⟩
  (operation.body.map fields.addBody).getD fields

/-- The schema for the arguments. Without properties there is none. -/
def schema? (fields : ArgumentFields) : Option (Entries String Value) :=
  if fields.properties.isEmpty then none
  else
    some ([("properties", .map fields.properties), ("type", .text "object")] ++
      (if fields.required.isEmpty then []
        else [("required", .list (fields.required.map .text))]))

end ArgumentFields

/-! ### Instructions -/

def queryItem (parameter : Parameter) : List Char :=
  parameter.name.toList ++ '=' :: (Piece.hole parameter.name.toList).marked

def urlTemplate (operation : Operation) (address : List Char) : List Char :=
  let path := ((Piece.read operation.path.toList).map Piece.marked).flatten
  let query := (operation.parameters.filter (·.place == .query)).map queryItem
  address ++ path ++ (if query.isEmpty then [] else '?' :: joinWith ['&'] query)

def instructions (operation : Operation) (address : List Char) : String :=
  directive ++ " " ++ operation.method.upperName ++ " " ++
    String.ofList (urlTemplate operation address) ++
    (match operation.body with
      | some body => " " ++ body.contentType
      | none => "")

/-! ### Tools -/

/-- The names of the operations and the ids of the tools by their names in lower case. A name that
is taken is followed by the number of its operation, `ordinal` being the first. -/
def assignNames (location : String) (ordinal : Nat) (taken : Entries String String) :
    List Operation → List String × Entries String String
  | [] => ([], taken)
  | operation :: rest =>
    let name := operationName operation
    let name := if taken.has (lower name) then s!"{name}_{ordinal}" else name
    let (names, taken) :=
      assignNames location (ordinal + 1) (taken.put (lower name) (Block.idAt location ordinal)) rest
    (name :: names, taken)

/-- What the tools of one description share. -/
structure Context where
  location : String
  workingDir : String
  model : String
  localTools : Entries String String

def Context.tool (context : Context) (line : Nat) (name description instructions : String) :
    Tool :=
  { Tool.named (Block.idAt context.location line) with
    name
    description
    modelName := context.model
    instructions
    localTools := context.localTools
    origin := ⟨context.location, line⟩
    workingDir := context.workingDir }

def operationTool (context : Context) (address : List Char) (line : Nat) (name : String)
    (operation : Operation) : Tool :=
  let summary := operation.summary.getD ""
  let description := if summary.isEmpty then operation.description.getD "" else summary
  { context.tool line name description (instructions operation address) with
    arguments := (ArgumentFields.ofOperation operation).schema? }

def operationTools (context : Context) (address : List Char) (line : Nat) :
    List (String × Operation) → List Tool
  | [] => []
  | (name, operation) :: rest =>
    operationTool context address line name operation ::
      operationTools context address (line + 1) rest

def rootTool (context : Context) (title description : String) (names : List String) : Tool :=
  { context.tool 1 (titleName title) description
      s!"Use the available tools to call the {title} API." with
    tools := names
    toolMapping := Entries.ofPairs (names.map (fun name =>
      (name, (context.localTools.get? (lower name)).getD ""))) }

structure Description where
  operations : List Operation
  /-- The address of the server. -/
  server : List Char
  title : String
  about : String

namespace Description

def read (document : Value) (version : Version) (location : String) :
    Except Error Description := do
  let spec ← refused location (inline document)
  if !spec.isMap then throw (.bare (.shape (.noMembers spec.kindName)))
  let operations ← reading location (readOperations version spec)
  if operations.isEmpty then throw (.conversion location .noOperations)
  let server ← address version spec location
  let info ← reading location (objectOf "info" (spec.get "info"))
  let title ← reading location (textOr "API" (info.get "title"))
  let about ← reading location (textOr title (info.get "description"))
  reading location (demand (operations.all (fun operation =>
    operation.body.all ArgumentFields.hasNames)))
  return { operations, server, title, about }

def names (description : Description) (location : String) : List String :=
  (assignNames location 2 [] description.operations).1

/-- The ids of all tools by their names in lower case. The root has its own name unless that is taken,
and the empty one. -/
def localTools (description : Description) (location : String) : Entries String String :=
  ((assignNames location 2 [] description.operations).2.putNew
    (lower (titleName description.title)) (Block.idAt location 1)).put "" (Block.idAt location 1)

def tools (description : Description) (location workingDir model : String) : List Tool :=
  let context : Context :=
    { location, workingDir, model, localTools := description.localTools location }
  let names := description.names location
  rootTool context description.title description.about names ::
    operationTools context description.server 2 (names.zip description.operations)

end Description

/-- The tools of a decoded description, read with a stack that some documents exhaust: data in them lies
too deep, or references lead on to references too often. -/
def toolsWithin (exhausts : Value → Bool) (document : Value) (version : Version)
    (location workingDir model : String) : Except Error (List Tool) :=
  if exhausts document then .error (.bare .exhausted)
  else (Description.read document version location).map (·.tools location workingDir model)

/-- The tools of a decoded description, read with a stack that holds out. -/
def tools (document : Value) (version : Version) (location workingDir model : String) :
    Except Error (List Tool) :=
  toolsWithin (fun _ => false) document version location workingDir model

end ToolGraph.OpenApi
