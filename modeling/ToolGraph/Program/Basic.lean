import ToolGraph.Json.Printer
import ToolGraph.Tool.Check

/-! Programs: an entry tool and every tool that can be reached from it. -/
namespace ToolGraph

structure Program where
  name : String
  entry : String
  tools : Entries String Tool

namespace Program
open Schema

def check : Value → Checked Program :=
  record (fun entries =>
    Program.mk
      <$> field entries ["name"] text none
      <*> field entries ["entryToolId", "entryToolID", "entry_tool_id"] text none
      <*> field entries ["toolSet", "tool_set"] (table Tool.check) (some []))

/-- Puts an id in its place among sorted ones. -/
def insertId (id : String) : List String → List String
  | [] => [id]
  | other :: ids => if id ≤ other then id :: other :: ids else other :: insertId id ids

/-- Ids in the order of their code points. -/
def sortIds (ids : List String) : List String := ids.foldr insertId []

def ids (program : Program) : List String := sortIds program.tools.keys

def tool? (program : Program) (id : String) : Option Tool := program.tools.get? id

def entryTool? (program : Program) : Option Tool := program.tool? program.entry

def toJson? (program : Program) : Option Json :=
  (program.ids.mapM (fun id =>
    (program.tool? id).bind (fun tool => tool.toJson?.map (fun json => (id, json))))).map
    (fun tools =>
      .object [("name", .text program.name), ("entryToolId", .text program.entry),
        ("toolSet", .object tools)])

def fault? (program : Program) : Option Fault :=
  program.ids.findSome? (fun id => (program.tool? id).bind Tool.fault?)

def text (layout : Json.Layout) (program : Program) : Except Error String :=
  match program.toJson? with
  | none => .error (.bare (program.fault?.getD .foreignBytes))
  | some json =>
    match json.print? layout with
    | some text => .ok text
    | none => .error (.bare (.json .hugeInteger))

def same (left right : Program) : Bool :=
  left.name == right.name && left.entry == right.entry &&
    left.tools.length == right.tools.length &&
    left.tools.all (fun entry => (right.tool? entry.1).any entry.2.same)

end Program
end ToolGraph
