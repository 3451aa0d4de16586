import ToolGraph.Entries
import ToolGraph.Number.Binary64

/-! JSON data. Whole numbers have any size, and an object keeps its members in order. -/
namespace ToolGraph

inductive Json where
  | null
  | bool (value : Bool)
  | int (value : Int)
  | float (value : Binary64)
  | text (value : String)
  | list (items : List Json)
  | object (members : List (String × Json))
  deriving Inhabited

namespace Json

def member? (json : Json) (key : String) : Option Json :=
  match json with
  | .object members => Entries.get? members key
  | _ => none

def text? : Json → Option String
  | .text value => some value
  | _ => none

end Json
end ToolGraph
