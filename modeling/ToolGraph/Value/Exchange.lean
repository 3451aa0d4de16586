import ToolGraph.Fault
import ToolGraph.Value.Display

/-!
Data in the form for exchange, which is JSON: numbers that are not finite become null, dates and
bytes become texts, pairs and sets become lists, and every key becomes a text.
-/
namespace ToolGraph.Value

/-- The text of a key. Bytes that are no text have none. -/
def keyText? : Value → Option String
  | .bool value => some (if value then "true" else "false")
  | .dateTime value => some value.toExchangeText
  | .bytes value => (Text.decode? value).map String.ofList
  | value => some value.display

mutual

/-- The JSON form. There is none where bytes that are no text occur. -/
def toJson? : Value → Option Json
  | .null => some .null
  | .bool value => some (.bool value)
  | .int value => some (.int value)
  | .float value => some (if value.isFinite then .float value else .null)
  | .text value => some (.text value)
  | .date value => some (.text value.toText)
  | .dateTime value => some (.text value.toExchangeText)
  | .bytes value => (Text.decode? value).map (fun chars => .text (String.ofList chars))
  | .pair first second =>
    match first.toJson?, second.toJson? with
    | some first, some second => some (.list [first, second])
    | _, _ => none
  | .list items => (itemsToJson? items).map .list
  | .set items => (itemsToJson? items).map .list
  | .map entries => (entriesToJson? entries).map (fun members => .object (Entries.ofPairs members))

def itemsToJson? : List Value → Option (List Json)
  | [] => some []
  | item :: items =>
    match item.toJson?, itemsToJson? items with
    | some item, some items => some (item :: items)
    | _, _ => none

def entriesToJson? : List (Value × Value) → Option (List (String × Json))
  | [] => some []
  | (key, value) :: entries =>
    match key.keyText?, value.toJson?, entriesToJson? entries with
    | some key, some value, some entries => some ((key, value) :: entries)
    | _, _, _ => none

end

/-! ### What is not written -/

/-- How many levels of data are written, one in the other. -/
def maxLevels : Nat := 255

def keyFault? (key : Value) : Option Fault :=
  match key.keyText? with
  | none => some .foreignBytes
  | some name => if Text.isEncodable name then none else some .foreignKey

mutual

/-- What keeps data from being written, the first of it, where `levels` more may be written. -/
def fault? : (levels : Nat) → Value → Option Fault
  | 0, _ => some .tooDeep
  | levels + 1, value =>
    match value with
    | .bytes value => if (Text.decode? value).isSome then none else some .foreignBytes
    | .pair first second => (first.fault? levels).or (second.fault? levels)
    | .list items => itemsFault? levels items
    | .set items => itemsFault? levels items
    | .map entries => entriesFault? levels entries
    | _ => none

def itemsFault? : (levels : Nat) → List Value → Option Fault
  | _, [] => none
  | levels, item :: items => (item.fault? levels).or (itemsFault? levels items)

def entriesFault? : (levels : Nat) → List (Value × Value) → Option Fault
  | _, [] => none
  | levels, (key, value) :: entries =>
    (key.keyFault?.or (value.fault? levels)).or (entriesFault? levels entries)

end

end ToolGraph.Value
