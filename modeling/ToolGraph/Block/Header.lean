import ToolGraph.Error
import ToolGraph.Number.Literal
import ToolGraph.Text.Blank
import ToolGraph.Text.Cut
import ToolGraph.Text.Lower
import ToolGraph.Entries

/-! The header of a tool block: lines `key: value`, in any case and with spaces inside the key. -/
namespace ToolGraph
open Text

/-- What a key of a header line is about. -/
inductive HeaderKey where
  | name
  | description
  | model
  | tools
  | argument
  | internalPrompt
  | jsonResponse
  | cache
  | maxTokens
  | temperature
  deriving DecidableEq, Repr

/-- The header of a block. A field without a line has no value. -/
structure Header where
  name : Option String := none
  description : Option String := none
  modelName : Option String := none
  maxTokens : Option Int := none
  cache : Option Bool := none
  jsonResponse : Option Bool := none
  temperature : Option Binary64 := none
  internalPrompt : Option Bool := none
  tools : List String := []
  /-- The descriptions of the arguments by their names. -/
  arguments : Entries String String := []

namespace HeaderKey

def spellings : List (String × HeaderKey) := [
  ("name", .name), ("description", .description), ("model", .model), ("modelname", .model),
  ("tool", .tools), ("tools", .tools), ("arg", .argument), ("args", .argument),
  ("param", .argument), ("params", .argument), ("parameter", .argument),
  ("parameters", .argument), ("internalprompt", .internalPrompt), ("maxtoken", .maxTokens),
  ("maxtokens", .maxTokens), ("temperature", .temperature), ("jsonresponse", .jsonResponse),
  ("cache", .cache)]

def read? (written : List Char) : Option HeaderKey :=
  spellings.lookup (String.ofList (trim ((lowerFrom [] written).filter (· != ' '))))

end HeaderKey

/-- A line of a header: its key, the key as it is written, and the value. -/
structure HeaderLine where
  key : HeaderKey
  written : String
  value : List Char

namespace HeaderLine

def read? (line : List Char) : Option HeaderLine :=
  match cutAt? ':' line with
  | none => none
  | some (written, value) =>
    (HeaderKey.read? written).map (fun key =>
      { key, written := String.ofList (trim written), value := trim value })

end HeaderLine

namespace Header

def isEmpty (header : Header) : Bool :=
  header.name.isNone && header.description.isNone && header.modelName.isNone &&
    header.maxTokens.isNone && header.cache.isNone && header.jsonResponse.isNone &&
    header.temperature.isNone && header.internalPrompt.isNone && header.tools.isEmpty &&
    header.arguments.isEmpty

def readTools (value : List Char) : List String :=
  (((splitAt ',' value).map trim).filter (!·.isEmpty)).map String.ofList

def readArgument? (value : List Char) : Option (String × String) :=
  match cutAt? ':' value with
  | none => none
  | some (name, description) =>
    if (trim name).isEmpty then none
    else some (String.ofList (trim name), String.ofList (trim description))

def readBool? (value : List Char) : Option Bool :=
  let word := String.ofList (lowerFrom [] value)
  if word = "true" then some true else if word = "false" then some false else none

/-- Records a line. The last value of a field counts, references are added, and an argument keeps
its first place. -/
def add (header : Header) (line : HeaderLine) : Except ParseFault Header :=
  let text := String.ofList line.value
  let bool (store : Bool → Header) : Except ParseFault Header :=
    match readBool? line.value with
    | some value => .ok (store value)
    | none => .error (.badBoolean line.written text)
  match line.key with
  | .name => .ok { header with name := some text }
  | .description => .ok { header with description := some text }
  | .model => .ok { header with modelName := some text }
  | .tools => .ok { header with tools := header.tools ++ readTools line.value }
  | .argument =>
    match readArgument? line.value with
    | some (name, description) =>
      .ok { header with arguments := header.arguments.put name description }
    | none => .error (.badArgument text)
  | .internalPrompt => bool (fun value => { header with internalPrompt := some value })
  | .jsonResponse => bool (fun value => { header with jsonResponse := some value })
  | .cache => bool (fun value => { header with cache := some value })
  | .maxTokens =>
    match Number.readInt? line.value with
    | some value => .ok { header with maxTokens := some value }
    | none => .error (.badInteger line.written text)
  | .temperature =>
    match Number.readFloat? line.value with
    | some value => .ok { header with temperature := some value }
    | none => .error (.badNumber line.written text)

end Header
end ToolGraph
