import ToolGraph.Pointer

/-!
Inlining of references. A reference is an object with a text under `$ref`, a pointer into the
document. It is replaced by the data that the pointer leads to, in which references are replaced in
turn; only a pointer that leads back into its own expansion stays as it is.
-/
namespace ToolGraph.OpenApi

def reference? (entries : List (Value × Value)) : Option String :=
  match Value.entry? entries (.text "$ref") with
  | some (.text pointer) => some pointer
  | _ => none

mutual

def pointers : Value → List String
  | .list items => itemPointers items
  | .map entries => (reference? entries).toList ++ entryPointers entries
  | _ => []

def itemPointers : List Value → List String
  | [] => []
  | item :: items => pointers item ++ itemPointers items

def entryPointers : List (Value × Value) → List String
  | [] => []
  | (_, value) :: entries => pointers value ++ entryPointers entries

end

mutual

/-- Replaces every reference by what `target` gives for its pointer; where it gives nothing the
reference stays. -/
def substitute (target : String → Except ConversionFault (Option Value)) :
    Value → Except ConversionFault Value
  | .list items => (substituteItems target items).map .list
  | .map entries =>
    match reference? entries with
    | some pointer => (target pointer).map (fun value => value.getD (.map entries))
    | none => (substituteEntries target entries).map .map
  | value => .ok value

def substituteItems (target : String → Except ConversionFault (Option Value)) :
    List Value → Except ConversionFault (List Value)
  | [] => .ok []
  | item :: items =>
    match substitute target item with
    | .error fault => .error fault
    | .ok item => (substituteItems target items).map (item :: ·)

def substituteEntries (target : String → Except ConversionFault (Option Value)) :
    List (Value × Value) → Except ConversionFault (List (Value × Value))
  | [] => .ok []
  | (key, value) :: entries =>
    match substitute target value with
    | .error fault => .error fault
    | .ok value => (substituteEntries target entries).map ((key, value) :: ·)

end

/-- Expands data of the document `root`. The pointers in `active` are being expanded, and `fresh`
bounds the number of others: with none left, every reference in the data is active and stays. -/
def expand (root : Value) : (fresh : Nat) → (active : List String) → Value →
    Except ConversionFault Value
  | 0, _, value => .ok value
  | fresh + 1, active, value =>
    substitute
      (fun pointer =>
        if active.contains pointer then .ok none
        else
          match Pointer.follow root pointer with
          | .error fault => .error fault
          | .ok target => (expand root fresh (pointer :: active) target).map some)
      value

def inline (document : Value) : Except ConversionFault Value :=
  expand document (pointers document).length [] document

end ToolGraph.OpenApi
