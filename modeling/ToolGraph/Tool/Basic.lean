import ToolGraph.Number.Shortest
import ToolGraph.Value.Exchange

/-! Tools: what a source defines and a program is made of. -/
namespace ToolGraph

/-- The model of tools that name none. -/
def defaultModel : String := "gpt-4-turbo-preview"

/-- Where a tool comes from: the canonical location of its source and the line it starts on. -/
structure Origin where
  location : String
  line : Int
  deriving DecidableEq, Repr

structure Tool where
  name : String
  description : String
  maxTokens : Option Int
  modelName : String
  cache : Option Bool
  jsonResponse : Option Bool
  temperature : Option Binary64
  internalPrompt : Option Bool
  arguments : Option (Entries String Value)
  /-- References to other tools, as the author wrote them. -/
  tools : List String
  instructions : String
  id : String
  /-- The id of the tool that each reference leads to. -/
  toolMapping : Entries String String
  /-- The ids of the tools of the same source by their names in lower case; the first tool has the
  empty name. -/
  localTools : Entries String String
  origin : Origin
  workingDir : String

namespace Tool

def named (id : String) : Tool :=
  { name := ""
    description := ""
    maxTokens := none
    modelName := defaultModel
    cache := none
    jsonResponse := none
    temperature := none
    internalPrompt := none
    arguments := none
    tools := []
    instructions := ""
    id
    toolMapping := []
    localTools := []
    origin := ⟨"", 0⟩
    workingDir := "" }

def optionalMember {α : Type} (name : String) (toJson : α → Json) (value : Option α) :
    List (String × Json) :=
  match value with
  | some value => [(name, toJson value)]
  | none => []

def textMember (name value : String) : List (String × Json) :=
  if value.isEmpty then [] else [(name, .text value)]

/-- A table of references, written by `target`. -/
def tableJson (target : String → Json) (table : Entries String String) : Json :=
  .object (table.map (fun entry => (entry.1, target entry.2)))

def fault? (tool : Tool) : Option Fault :=
  (tool.arguments.getD []).findSome? (fun entry => entry.2.fault? Value.maxLevels)

/-- The member of the arguments, if the tool has any. There is none where they cannot be written. -/
def argumentsMember? (tool : Tool) : Option (List (String × Json)) :=
  match tool.arguments with
  | none => some []
  | some arguments =>
    if tool.fault?.isSome then none
    else
      (Value.map (arguments.map (fun entry => (.text entry.1, entry.2)))).toJson?.map
        (fun json => [("arguments", json)])

/-- The members of a tool, with the ids in its tables written by `target`. -/
def membersWith (target : String → Json) (tool : Tool) (arguments : List (String × Json)) :
    List (String × Json) :=
  textMember "name" tool.name ++
    textMember "description" tool.description ++
    optionalMember "maxTokens" Json.int tool.maxTokens ++
    [("modelName", .text tool.modelName)] ++
    optionalMember "cache" Json.bool tool.cache ++
    optionalMember "jsonResponse" Json.bool tool.jsonResponse ++
    optionalMember "temperature" Json.float tool.temperature ++
    [("internalPrompt", (tool.internalPrompt.map Json.bool).getD .null)] ++
    arguments ++
    (if tool.tools.isEmpty then [] else [("tools", .list (tool.tools.map .text))]) ++
    [("instructions", .text tool.instructions), ("id", .text tool.id)] ++
    (if tool.toolMapping.isEmpty then []
      else [("toolMapping", tableJson target tool.toolMapping)]) ++
    [("localTools", tableJson target tool.localTools),
      ("source", .object [("location", .text tool.origin.location),
        ("lineNo", .int tool.origin.line)]),
      ("workingDir", .text tool.workingDir)]

/-- The members of a tool. There are none where the arguments cannot be written. -/
def members? (target : String → Json) (tool : Tool) : Option (List (String × Json)) :=
  tool.argumentsMember?.map (tool.membersWith target)

def toJson? (tool : Tool) : Option Json :=
  (tool.members? .text).map .object

def unresolved (tool : Tool) : List String :=
  tool.tools.filter (fun reference => !tool.toolMapping.has reference)

def sameTable (left right : Entries String String) : Bool :=
  left.length == right.length && left.all (fun entry => right.get? entry.1 == some entry.2)

def same (left right : Tool) : Bool :=
  left.name == right.name && left.description == right.description &&
    left.maxTokens == right.maxTokens && left.modelName == right.modelName &&
    left.cache == right.cache && left.jsonResponse == right.jsonResponse &&
    (match left.temperature, right.temperature with
      | some l, some r => l.same r
      | none, none => true
      | _, _ => false) &&
    left.internalPrompt == right.internalPrompt &&
    (match left.arguments, right.arguments with
      | some l, some r =>
        (Value.map (l.map (fun entry => (.text entry.1, entry.2)))).equals
          (.map (r.map (fun entry => (.text entry.1, entry.2))))
      | none, none => true
      | _, _ => false) &&
    left.tools == right.tools && left.instructions == right.instructions && left.id == right.id &&
    sameTable left.toolMapping right.toolMapping && sameTable left.localTools right.localTools &&
    left.origin == right.origin && left.workingDir == right.workingDir

end Tool
end ToolGraph
