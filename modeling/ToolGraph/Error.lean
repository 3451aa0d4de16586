import ToolGraph.Fault
import ToolGraph.Number.Shortest

/-! Failures of loading, converting, assembling and configuring, their messages and exit codes. -/
namespace ToolGraph

/-- The kinds of failure that a caller can tell apart. -/
inductive ErrorClass where
  | general
  | config
  | assemble
  | sourceNotFound
  | timeout
  | parse
  | conversion
  | resolution
  | entryNotFound
  deriving DecidableEq, Repr

namespace ErrorClass

def exitCode : ErrorClass → Nat
  | .general | .config | .assemble => 1
  | .sourceNotFound => 4
  | .timeout => 6
  | .parse | .conversion => 7
  | .resolution | .entryNotFound => 8

end ErrorClass

/-! ### Messages from their parts -/

namespace Message

def sourceNotFound (location reason : String) : String :=
  "Source not found: " ++ location ++ (if reason.isEmpty then "" else " (" ++ reason ++ ")")

def atLine (location : String) (line : Int) (text : String) : String :=
  s!"{location}:{line}: {text}"

def conversion (location text : String) : String := location ++ ": " ++ text

def resolving (fromTool reference reason : String) : String :=
  if fromTool.isEmpty then s!"Resolving '{reference}': {reason}"
  else s!"Resolving '{reference}' from {fromTool}: {reason}"

def toolNotFound (subTool location : String) : String :=
  s!"Tool '{subTool}' not found" ++ (if location.isEmpty then "" else " in " ++ location)

end Message

/-- What is wrong with a native source. -/
inductive ParseFault where
  | notText (fault : Text.EncodingFault)
  | noTools
  | duplicateName (name : String)
  | badArgument (value : String)
  | badBoolean (key value : String)
  | badInteger (key value : String)
  | badNumber (key value : String)
  deriving DecidableEq, Repr

/-- What the items of a list must be. -/
inductive ItemKind where
  | objects
  | strings
  deriving DecidableEq, Repr

def ItemKind.name : ItemKind → String
  | .objects => "objects"
  | .strings => "strings"

/-- What keeps a document from becoming tools. -/
inductive ConversionFault where
  | invalidJson
  | undecodable (tried : Bool)
  | notObject (kind : String)
  | externalPointer (pointer : String)
  | keyNotFound (pointer segment : String)
  | badIndex (pointer segment : String) (outOfRange : Bool)
  | noWay (pointer kind : String)
  | noOperations
  | mustBeObject (part kind : String)
  | mustBeList (part : String) (items : ItemKind)
  | invalidOperation (operation : String) (issues : List Issue)
  deriving DecidableEq, Repr

/-- Why an artifact is refused. -/
inductive ArtifactFault where
  | unreadable (path : String) (fault : FileFault)
  | undecodable (cause : Fault)
  | otherKind
  | malformed (cause : Fault)
  | dangling (tool target : String)
  deriving DecidableEq, Repr

/-- Why a configuration is refused. -/
inductive ConfigFault where
  | unreadable (what path : String) (cause : Fault)
  | notObject (what path : String)
  | invalidFile (path : String) (issues : List Issue)
  | badTimeout (text : String)
  | invalid (issues : List Issue)
  deriving DecidableEq, Repr

/-- Why there is no content at a location. -/
inductive SourceFault where
  | file (fault : FileFault)
  | transport (kind text : String)
  | status (code : Int)
  | notRepository
  deriving DecidableEq, Repr

def SourceFault.reason : SourceFault → String
  | .file fault => fault.message
  | .transport kind text => if text.isEmpty then kind else text
  | .status code => s!"HTTP {code}"
  | .notRepository => "expected github.com/<owner>/<repo>[/<path>]"

inductive Error where
  | bare (fault : Fault)
  | config (fault : ConfigFault)
  | artifact (fault : ArtifactFault)
  | source (location : String) (fault : SourceFault)
  | timeout (name : String) (seconds : Binary64)
  | parse (location : String) (line : Int) (fault : ParseFault)
  | conversion (location : String) (fault : ConversionFault)
  | emptyReference (fromTool reference : String)
  | unknownBuiltin (fromTool reference name : String)
  | resolution (fromTool reference : String) (cause : Error)
  | entryNotFound (subTool location : String)
  deriving DecidableEq

namespace Error

/-- The kind of a failure. A bare fault of data or the system has none. -/
def class? : Error → Option ErrorClass
  | .bare _ => none
  | .config _ => some .config
  | .artifact _ => some .assemble
  | .source .. => some .sourceNotFound
  | .timeout .. => some .timeout
  | .parse .. => some .parse
  | .conversion .. => some .conversion
  | .emptyReference .. | .unknownBuiltin .. | .resolution .. => some .resolution
  | .entryNotFound .. => some .entryNotFound

/-- The failure or the fault that this failure comes from. -/
def cause? : Error → Option Error
  | .bare _ | .timeout .. | .emptyReference .. | .unknownBuiltin .. | .entryNotFound .. => none
  | .config (.unreadable _ _ cause) => some (.bare cause)
  | .config (.invalidFile _ issues) | .config (.invalid issues) => some (.bare (.invalid issues))
  | .config _ => none
  | .artifact (.unreadable path fault) => some (.bare (.file path fault))
  | .artifact (.undecodable cause) | .artifact (.malformed cause) => some (.bare cause)
  | .artifact _ => none
  | .source location (.file fault) => some (.bare (.file location fault))
  | .source _ (.transport kind text) => some (.bare (.transport kind text))
  | .source .. => none
  | .parse _ _ (.notText fault) => some (.bare (.encoding fault))
  | .parse .. => none
  | .conversion _ .invalidJson => some (.bare (.json .malformed))
  | .conversion _ (.badIndex _ _ true) => some (.bare (.shape .indexRange))
  | .conversion _ (.badIndex _ _ false) => some (.bare .notNumber)
  | .conversion _ (.invalidOperation _ issues) => some (.bare (.invalid issues))
  | .conversion .. => none
  | .resolution _ _ cause => some cause

/-- The failure together with the ones that it comes from, outermost first. -/
def chain : Error → List Error
  | .resolution fromTool reference cause => .resolution fromTool reference cause :: cause.chain
  | error => error :: error.cause?.toList

def parseText (shown : Fault → String) : ParseFault → String
  | .notText fault => "content is not UTF-8 text: " ++ shown (.encoding fault)
  | .noTools => "no tool definitions found"
  | .duplicateName name => s!"duplicate tool name '{name}'"
  | .badArgument value => s!"argument must be written as 'name: description', got '{value}'"
  | .badBoolean key value => s!"invalid boolean for {key}: '{value}'"
  | .badInteger key value => s!"invalid integer for {key}: '{value}'"
  | .badNumber key value => s!"invalid number for {key}: '{value}'"

def conversionText (shown : Fault → String) : ConversionFault → String
  | .invalidJson => "Invalid JSON: " ++ shown (.json .malformed)
  | .undecodable tried =>
    "Failed to parse document as JSON or YAML" ++
      (if tried then "\n  JSON error: " ++ shown (.json .malformed) else "") ++
      "\n  YAML error: " ++ shown (.yaml .malformed)
  | .notObject kind => s!"Document must be a JSON/YAML object (got {kind})"
  | .externalPointer pointer => s!"External $ref not supported: {pointer}"
  | .keyNotFound pointer segment => s!"Cannot resolve $ref '{pointer}': key '{segment}' not found"
  | .badIndex pointer segment _ =>
    s!"Cannot resolve $ref '{pointer}': invalid array index '{segment}'"
  | .noWay pointer kind => s!"Cannot resolve $ref '{pointer}': cannot navigate into {kind}"
  | .noOperations => "document defines no operations"
  | .mustBeObject part kind => s!"{part} must be an object, not {kind}"
  | .mustBeList part items => s!"{part} must be a list of {items.name}"
  | .invalidOperation operation issues => s!"{operation}: {shown (.invalid issues)}"

def artifactText (shown : Fault → String) : ArtifactFault → String
  | .unreadable path fault =>
    s!"Cannot read assembled artifact {path}: {shown (.file path fault)}"
  | .undecodable cause => s!"Invalid assembled artifact: {shown cause}"
  | .otherKind => "Not a toolscribe.assembled/v1 artifact"
  | .malformed cause => s!"Malformed assembled artifact: {shown cause}"
  | .dangling tool target => s!"{tool} references {target}, which is not in the program"

def configText (shown : Fault → String) : ConfigFault → String
  | .unreadable what path cause => s!"Invalid {what} at {path}: {shown cause}"
  | .notObject what path => s!"Invalid {what} at {path}: expected a JSON object"
  | .invalidFile path issues => s!"Invalid global config at {path}: {shown (.invalid issues)}"
  | .badTimeout text => s!"TOOLSCRIBE_TIMEOUT must be a number of seconds, got '{text}'"
  | .invalid issues => s!"Invalid configuration: {shown (.invalid issues)}"

/-- The message of a failure, with the texts of faults as `shown` has them. -/
def message (shown : Fault → String) : Error → String
  | .bare fault => shown fault
  | .config fault => configText shown fault
  | .artifact fault => artifactText shown fault
  | .source location fault => Message.sourceNotFound location fault.reason
  | .timeout name seconds => s!"Loading '{name}' did not finish within {seconds.toText}s"
  | .parse location line fault => Message.atLine location line (parseText shown fault)
  | .conversion location fault => Message.conversion location (conversionText shown fault)
  | .emptyReference fromTool reference =>
    Message.resolving fromTool reference "empty reference"
  | .unknownBuiltin fromTool reference name =>
    Message.resolving fromTool reference s!"unknown built-in tool '{name}'"
  | .resolution fromTool reference cause =>
    Message.resolving fromTool reference (cause.message shown)
  | .entryNotFound subTool location => Message.toolNotFound subTool location

/-- The issues of the failed check that the failure comes from. -/
def issues (error : Error) : List Issue :=
  match error.chain.getLast? with
  | some (.bare fault) => fault.issues
  | _ => []

end Error
end ToolGraph
