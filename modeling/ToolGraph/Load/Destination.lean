import ToolGraph.Builtin
import ToolGraph.Canonical
import ToolGraph.Reference

/-!
Where the references of a tool lead. A tool of the same source that has the whole reference for its
name comes first, then a built-in tool; any other reference names a source.
-/
namespace ToolGraph
open Text

inductive Destination where
  /-- A tool of the same source. -/
  | sibling (id : String)
  | builtin (tool : Tool)
  /-- A tool of the source at a canonical location; an empty name means its first one. -/
  | source (location : List Char) (subTool : String)

/-- What references are seen against. -/
structure Outlook where
  canonical : List Char → Except Error (List Char)
  home : List Char

namespace Outlook

/-- The canonical location that `reference` means in the directory `base`. -/
def locate (outlook : Outlook) (reference base : List Char) : Except Error (List Char) :=
  match Location.join outlook.home reference base with
  | .ok location => outlook.canonical location
  | .error error => .error (.bare (.url error))

end Outlook

namespace Error

/-- A failure on the way of a reference. Faults of data stay as they are, and so do failures that
name their reference. -/
def onReference (tool reference : String) : Error → Error
  | .bare fault => .bare fault
  | .emptyReference fromTool written => .emptyReference fromTool written
  | .unknownBuiltin fromTool written name => .unknownBuiltin fromTool written name
  | .resolution fromTool written cause => .resolution fromTool written cause
  | error => .resolution tool reference error

end Error

namespace Destination

/-- The id of the tool of the same source that a reference names: as a whole, or without its
arguments. -/
def sibling? (tool : Tool) (written : String) (reference : Reference) : Option String :=
  match tool.localTools.get? (lower written) with
  | some id => some id
  | none =>
    if reference.subTool.isEmpty then tool.localTools.get? (lower reference.source) else none

def find (outlook : Outlook) (tool : Tool) (written : String) : Except Error Destination :=
  let reference := Reference.read written
  if reference.source.isEmpty then .error (.emptyReference tool.id written)
  else
    match sibling? tool written reference with
    | some id => .ok (.sibling id)
    | none =>
      if reference.subTool.isEmpty && Builtin.isReference reference.source then
        match Builtin.find? reference.source with
        | some target => .ok (.builtin target)
        | none => .error (.unknownBuiltin tool.id written reference.source)
      else
        match outlook.locate reference.source.toList tool.workingDir.toList with
        | .ok location => .ok (.source location reference.subTool)
        | .error error => .error (error.onReference tool.id written)

end Destination
end ToolGraph
