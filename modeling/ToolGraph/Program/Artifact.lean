import ToolGraph.Document
import ToolGraph.Position
import ToolGraph.Program.Basic

/-!
Artifacts: a program in one JSON document that needs no other source. Ids inside its tools are
written as positions in its list of tools, the entry tool first and the others by id.
-/
namespace ToolGraph.Artifact
open Program

def order (program : Program) : List String :=
  program.entry :: sortIds (program.tools.keys.filter (· != program.entry))

/-- Writes the values of a table as positions. An id that is no position is dangling. -/
def checkTargets (ids : List String) (id : String) (tool : Tool) : Except Error Unit :=
  match (tool.toolMapping ++ tool.localTools).find? (fun entry => !ids.contains entry.2) with
  | some entry => .error (.artifact (.dangling id entry.2))
  | none => .ok ()

def toolJson (program : Program) (ids : List String) (id : String) : Except Error Json :=
  match program.tool? id with
  | none => .error (.bare (.shape (.missingKey id)))
  | some tool =>
    match tool.members? (fun target => .int (ids.idxOf target)) with
    | none => .error (.bare (tool.fault?.getD .foreignBytes))
    | some members => do
      checkTargets ids id tool
      return .object members

def toJson (program : Program) : Except Error Json := do
  let ids := order program
  let tools ← ids.mapM (toolJson program ids)
  return .object [("kind", .text Document.artifactKind), ("name", .text program.name),
    ("entry", .int 0), ("tools", .list tools)]

def layout : Json.Layout := ⟨some 2, false⟩

/-- The text of the artifact, which ends with a line feed. -/
def assemble (program : Program) : Except Error String := do
  let json ← toJson program
  match json.print? layout with
  | some text => return text ++ "\n"
  | none => throw (.bare (.json .hugeInteger))

/-! ### Reading an artifact -/

def malformed {α : Type} (fault : ShapeFault) : Except Error α :=
  .error (.artifact (.malformed (.shape fault)))

def notSubscriptable (value : Value) : String :=
  s!"'{value.kindName}' object is not subscriptable"

def member (value : Value) (key : String) : Except Error Value :=
  match value with
  | .map entries =>
    match Value.entry? entries (.text key) with
    | some value => .ok value
    | none => malformed (.missingKey key)
  | .list _ => malformed (.wrongType "list indices must be integers or slices, not str")
  | .text _ => malformed (.wrongType "string indices must be integers, not 'str'")
  | _ => malformed (.wrongType (notSubscriptable value))

def parts (value : Value) : Except Error (List Value) :=
  match value with
  | .list items => .ok items
  | .map entries => .ok (entries.map (·.1))
  | .text text => .ok (text.toList.map (fun c => .text (String.singleton c)))
  | _ => malformed (.wrongType s!"'{value.kindName}' object is not iterable")

def idAt (ids : List Value) (position : Value) : Except Error Value :=
  let at? (position : Int) : Except Error Value :=
    match itemAt? ids position with
    | some id => .ok id
    | none => malformed .indexRange
  match position with
  | .int position => at? position
  | .bool position => at? (if position then 1 else 0)
  | _ => malformed (.wrongType
      s!"list indices must be integers or slices, not {position.kindName}")

/-- A table of positions as a table of ids. What counts as absent is an empty table. -/
def idTable (ids : List Value) (table : Value) : Except Error Value :=
  if table.isPresent then
    match table with
    | .map entries => do
      let entries ← entries.mapM (fun entry => do return (entry.1, ← idAt ids entry.2))
      return .map entries
    | _ => .error (.bare (.shape (.noMembers table.kindName)))
  else .ok (.map [])

def readTool (ids : List Value) (entry : Value) : Except Error Tool := do
  let mapping ← idTable ids (entry.get "toolMapping")
  let localTools ← idTable ids (entry.get "localTools")
  let entries := match entry with
    | .map entries => entries
    | _ => []
  let entries := Value.putEntry entries (.text "toolMapping") mapping
  let entries := Value.putEntry entries (.text "localTools") localTools
  match Tool.check (.map entries) with
  | .valid tool => return tool
  | .invalid issues => throw (.artifact (.malformed (.invalid issues)))

def ofValue (data : Value) : Except Error Program := do
  let entries ← member data "tools"
  let entries ← parts entries
  let ids ← entries.mapM (fun entry => member entry "id")
  let tools ← entries.mapM (readTool ids)
  let name ← member data "name"
  let entry ← member data "entry"
  let entry ← idAt ids entry
  match Schema.field [(.text "name", name)] ["name"] Schema.text none,
      Schema.field [(.text "entry_tool_id", entry)] ["entry_tool_id"] Schema.text none with
  | .valid name, .valid entry =>
    return { name, entry, tools := Entries.ofPairs (tools.map (fun tool => (tool.id, tool))) }
  | .invalid issues, .valid _ => throw (.artifact (.malformed (.invalid issues)))
  | .valid _, .invalid issues => throw (.artifact (.malformed (.invalid issues)))
  | .invalid first, .invalid second => throw (.artifact (.malformed (.invalid (first ++ second))))

def disassemble (content : String) : Except Error Program :=
  match Json.parse content with
  | .error .malformed => .error (.artifact (.undecodable (.json .malformed)))
  | .error .hugeInteger => .error (.bare (.json .hugeInteger))
  | .ok json =>
    if (json.member? "kind").bind Json.text? = some Document.artifactKind then
      ofValue (Value.ofJson json)
    else .error (.artifact .otherKind)

def disassembleBytes (content : Bytes) : Except Error Program :=
  match Text.decodeDetected? content with
  | some chars => disassemble (String.ofList chars)
  | none => .error (.artifact (.undecodable (.encoding (.ofBytes content))))

/-- Reads the artifact in a file, which is a text in UTF-8. -/
def ofFile (path : String) (content : Except FileFault Bytes) : Except Error Program :=
  if path.toList.contains '\x00' then .error (.bare .nullInPath)
  else
    match content with
    | .error fault => .error (.artifact (.unreadable path fault))
    | .ok content =>
      match Text.decode? content with
      | some chars => disassemble (String.ofList chars)
      | none => .error (.bare (.encoding (.ofBytes content)))

end ToolGraph.Artifact
