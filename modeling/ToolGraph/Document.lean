import ToolGraph.Error
import ToolGraph.Value.Display
import ToolGraph.Yaml.Document

/-! Documents in JSON or YAML, whose root is an object. -/
namespace ToolGraph.Document

inductive Format where
  | json
  | yaml
  deriving DecidableEq, Repr

abbrev Root := List (Value × Value)

def root (location : String) (kind : String) : Value → Except Error Root
  | .map entries => .ok entries
  | _ => .error (.conversion location (.notObject kind))

def yamlKind (value : Value) : String :=
  if value.isNull then "empty document" else value.kindName

/-! ### Decoding

A text is decoded with a reader of YAML, whichever that is. -/

/-- How a reader of YAML fails: it refuses the syntax, or fails otherwise, as where a scalar has the form of
a value that does not exist. -/
inductive YamlFailure where
  | malformed
  | other (fault : Fault)
  deriving DecidableEq, Repr

abbrev YamlReader := String → Except YamlFailure Value

section reader
variable (reader : YamlReader)

/-- Reads a text as YAML. `tried` says that it is no JSON. -/
def decodeYaml (text location : String) (tried : Bool) : Except Error Root :=
  match reader text with
  | .ok value => root location (yamlKind value) value
  | .error .malformed => .error (.conversion location (.undecodable tried))
  | .error (.other fault) => .error (.bare fault)

/-- Reads a text as JSON, and as YAML if it is no JSON. A format that is given is the only one
tried. -/
def decodeWith (text location : String) (format : Option Format) : Except Error Root :=
  if format = some .yaml then decodeYaml reader text location false
  else
    match Json.parse text with
    | .ok json => root location (Value.ofJson json).kindName (Value.ofJson json)
    | .error .hugeInteger => .error (.bare (.json .hugeInteger))
    | .error .malformed =>
      if format = some .json then .error (.conversion location .invalidJson)
      else decodeYaml reader text location true

end reader

def artifactKind : String := "toolscribe.assembled/v1"

def holds (part : Bytes) : Bytes → Bool
  | [] => part.isEmpty
  | byte :: rest => part.isPrefixOf (byte :: rest) || holds part rest

/-- The version of the interface description that a root is, if it is one: 2 with a `swagger` key
that is present, 3 where `openapi` starts with that digit. -/
def versionOf (root : Root) : Except Error (Option Nat) :=
  let value := Value.map root
  let version := (value.member? "openapi").getD (.text "")
  if (value.get "swagger").isPresent then .ok (some 2)
  else if !version.isShowable then .error (.bare (.json .hugeInteger))
  else .ok (if Text.startsWith "3" version.display.toList then some 3 else none)

def openApiVersionWith (reader : YamlReader) (content : Bytes) : Except Error (Option Nat) :=
  if !holds (Text.encode "swagger".toList) content && !holds (Text.encode "openapi".toList) content
  then .ok none
  else
    match Text.decode? content with
    | none => .ok none
    | some chars =>
      match decodeWith reader (String.ofList chars) "" none with
      | .ok root => versionOf root
      | .error (.conversion ..) => .ok none
      | .error error => .error error

/-! ### The reader of this library -/

def readYaml : YamlReader := fun text =>
  match Yaml.parse text with
  | .ok value => .ok value
  | .error .malformed => .error .malformed
  | .error error => .error (.other (.yaml error))

def decode (text location : String) (format : Option Format) : Except Error Root :=
  decodeWith readYaml text location format

def openApiVersion (content : Bytes) : Except Error (Option Nat) := openApiVersionWith readYaml content

/-! ### Artifacts -/

def isArtifact (content : Bytes) : Except Error Bool :=
  if !holds (Text.encode artifactKind.toList) content then .ok false
  else
    match Text.decodeDetected? content with
    | none => .ok false
    | some chars =>
      match Json.parse (String.ofList chars) with
      | .ok json => .ok ((json.member? "kind").bind Json.text? == some artifactKind)
      | .error .malformed => .ok false
      | .error .hugeInteger => .error (.bare (.json .hugeInteger))

end ToolGraph.Document
