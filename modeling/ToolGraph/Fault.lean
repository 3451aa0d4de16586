import ToolGraph.Json.Parser
import ToolGraph.Text.Undecodable
import ToolGraph.Url.Request
import ToolGraph.Yaml.Cursor

/-!
Causes of failures that lie in data or in the system: what a reader, a check or an operation of the
file system found.
-/
namespace ToolGraph

/-- A step from checked data to the part that an issue is about. -/
inductive Step where
  | key (name : String)
  | index (position : Nat)
  deriving DecidableEq, Repr

/-- What a check found wrong with a value. -/
inductive IssueKind where
  | missing
  | stringType
  | stringUnicode
  | intType
  | intParsing
  | intParsingSize
  | intFromFloat
  | finiteNumber
  | floatType
  | floatParsing
  | boolType
  | boolParsing
  | modelType
  | dictType
  | listType
  | sequenceType
  | atLeast
  deriving DecidableEq, Repr

structure Issue where
  path : List Step
  kind : IssueKind
  deriving DecidableEq, Repr

/-- What the file system answers where it does not do what it was asked. -/
inductive FileFault where
  | notFound
  | isDirectory
  | notDirectory
  | exists
  deriving DecidableEq, Repr

namespace FileFault

def message : FileFault → String
  | .notFound => "No such file or directory"
  | .isDirectory => "Is a directory"
  | .notDirectory => "Not a directory"
  | .exists => "File exists"

def number : FileFault → Nat
  | .notFound => 2
  | .isDirectory => 21
  | .notDirectory => 20
  | .exists => 17

end FileFault

/-- Why stored data does not have the shape of an artifact. -/
inductive ShapeFault where
  | missingKey (key : String)
  | indexRange
  | wrongType (text : String)
  | noMembers (kind : String)
  deriving DecidableEq, Repr

inductive Fault where
  | json (error : JsonError)
  | yaml (error : Yaml.Error)
  | encoding (fault : Text.EncodingFault)
  | url (error : UrlError)
  | unsendable (error : SendError)
  | invalid (issues : List Issue)
  | file (path : String) (fault : FileFault)
  | shape (fault : ShapeFault)
  | transport (kind text : String)
  | tooManyRedirects
  | undecodable
  | notNumber
  | foreignBytes
  deriving DecidableEq, Repr

namespace Fault

/-- Data in data in data, so often that it is not written. -/
def tooDeep : Fault := .transport "ValueError" "Circular reference detected (depth exceeded)"

def foreignKey : Fault := .transport "UnicodeEncodeError" "surrogates not allowed"

/-- What becomes of a path with a null character, which no file system is asked for. -/
def nullInPath : Fault := .transport "ValueError" "embedded null byte"

/-- Data in data in data, so often that the stack does not hold out. -/
def exhausted : Fault := .transport "RecursionError" "maximum recursion depth exceeded"

/-- A task that was cancelled. This is no failure that is caught as one. -/
def cancelled : Fault := .transport "CancelledError" ""

def issues : Fault → List Issue
  | .invalid issues => issues
  | _ => []

def text : Fault → String
  | .json .malformed => "not a JSON text"
  | .json .hugeInteger => "an integer has too many digits"
  | .yaml _ => "not a YAML document"
  | .encoding fault => fault.text
  | .url .unbalancedBrackets => "Invalid IPv6 URL"
  | .url _ => "invalid authority in a URL"
  | .unsendable error => error.message
  | .invalid issues => s!"{issues.length} validation error(s)"
  | .file path fault => s!"[Errno {fault.number}] {fault.message}: '{path}'"
  | .shape (.missingKey key) => s!"'{key}'"
  | .shape .indexRange => "list index out of range"
  | .shape (.wrongType text) => text
  | .shape (.noMembers kind) => s!"'{kind}' object has no attribute 'items'"
  | .transport kind text => if text.isEmpty then kind else text
  | .tooManyRedirects => "Exceeded maximum allowed redirects."
  | .undecodable => "undecodable content"
  | .notNumber => "not a whole number"
  | .foreignBytes => "bytes that are no text"

end Fault
end ToolGraph
