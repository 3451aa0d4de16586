import ToolGraph.Error
import ToolGraph.Number.Literal
import ToolGraph.Position
import ToolGraph.Value.Basic

/-!
Pointers from a document into itself: `#/` and then segments between slashes, in which `~1` stands
for a slash and `~0` for a tilde.
-/
namespace ToolGraph.Pointer
open Text

def unescape : List Char → List Char
  | [] => []
  | '~' :: '1' :: rest => '/' :: unescape rest
  | '~' :: '0' :: rest => '~' :: unescape rest
  | c :: rest => c :: unescape rest

def segments? (pointer : String) : Option (List String) :=
  match pointer.toList with
  | '#' :: '/' :: rest =>
    some ((splitAt '/' rest).map (fun segment => String.ofList (unescape segment)))
  | _ => none

def step (pointer : String) (value : Value) (segment : String) : Except ConversionFault Value :=
  match value with
  | .map entries =>
    match Value.entry? entries (.text segment) with
    | some value => .ok value
    | none => .error (.keyNotFound pointer segment)
  | .list items =>
    match Number.readInt? segment.toList with
    | none => .error (.badIndex pointer segment false)
    | some position =>
      match itemAt? items position with
      | some item => .ok item
      | none => .error (.badIndex pointer segment true)
  | value => .error (.noWay pointer value.kindName)

def follow (root : Value) (pointer : String) : Except ConversionFault Value :=
  match segments? pointer with
  | none => .error (.externalPointer pointer)
  | some segments => segments.foldlM (step pointer) root

end ToolGraph.Pointer
