import ToolGraph.Calendar
import ToolGraph.Json.Basic
import ToolGraph.Text.Encoding

/-!
The data of a decoded document. It goes beyond JSON by dates, bytes, pairs and sets, and a map may
have keys that are no texts.
-/
namespace ToolGraph

inductive Value where
  | null
  | bool (value : Bool)
  | int (value : Int)
  | float (value : Binary64)
  | text (value : String)
  | date (value : Date)
  | dateTime (value : DateTime)
  | bytes (value : Bytes)
  | pair (first second : Value)
  | list (items : List Value)
  | set (items : List Value)
  | map (entries : List (Value × Value))
  deriving Inhabited

namespace Value

mutual

def ofJson : Json → Value
  | .null => .null
  | .bool value => .bool value
  | .int value => .int value
  | .float value => .float value
  | .text value => .text value
  | .list items => .list (ofItems items)
  | .object members => .map (ofMembers members)

def ofItems : List Json → List Value
  | [] => []
  | item :: items => ofJson item :: ofItems items

def ofMembers : List (String × Json) → List (Value × Value)
  | [] => []
  | (key, value) :: members => (.text key, ofJson value) :: ofMembers members

end

/-- The word for the kind of data in messages. -/
def kindName : Value → String
  | .null => "NoneType"
  | .bool _ => "bool"
  | .int _ => "int"
  | .float _ => "float"
  | .text _ => "str"
  | .date _ => "date"
  | .dateTime _ => "datetime"
  | .bytes _ => "bytes"
  | .pair .. => "tuple"
  | .list _ => "list"
  | .set _ => "set"
  | .map _ => "dict"

def number? : Value → Option (Int ⊕ Binary64)
  | .bool value => some (.inl (if value then 1 else 0))
  | .int value => some (.inl value)
  | .float value =>
    match value.toInt? with
    | some whole => some (.inl whole)
    | none => some (.inr value)
  | _ => none

def sameKey (left right : Value) : Bool :=
  match left.number?, right.number? with
  | some l, some r => l == r
  | none, none =>
    match left, right with
    | .null, .null => true
    | .text l, .text r => l == r
    | .date l, .date r => l == r
    | .dateTime l, .dateTime r => l.same r
    | .bytes l, .bytes r => l == r
    | _, _ => false
  | _, _ => false

def putEntry (entries : List (Value × Value)) (key value : Value) : List (Value × Value) :=
  match entries with
  | [] => [(key, value)]
  | (other, old) :: rest =>
    if other.sameKey key then (other, value) :: rest else (other, old) :: putEntry rest key value

def entry? (entries : List (Value × Value)) (key : Value) : Option Value :=
  (entries.find? (·.1.sameKey key)).map (·.2)

def member? (value : Value) (key : String) : Option Value :=
  match value with
  | .map entries => entry? entries (.text key)
  | _ => none

def get (value : Value) (key : String) : Value := (value.member? key).getD .null

/-- The entries of a map; other data has none. -/
def entries : Value → List (Value × Value)
  | .map entries => entries
  | _ => []

def isPresent : Value → Bool
  | .null => false
  | .bool value => value
  | .int value => value != 0
  | .float value => !value.isZero
  | .text value => !value.isEmpty
  | .bytes value => !value.isEmpty
  | .list items | .set items => !items.isEmpty
  | .map entries => !entries.isEmpty
  | .date _ | .dateTime _ | .pair .. => true

mutual

def equals : Value → Value → Bool
  | .float left, .float right => left.same right
  | .list left, .list right => equalItems left right
  | .pair a b, .pair c d => a.equals c && b.equals d
  | .map left, .map right => left.length == right.length && equalEntries left right
  | .set left, .set right =>
    left.length == right.length && left.all (fun item => right.any item.sameKey)
  | left, right => left.sameKey right

def equalItems : List Value → List Value → Bool
  | [], [] => true
  | left :: lefts, right :: rights => left.equals right && equalItems lefts rights
  | _, _ => false

def equalEntries : List (Value × Value) → List (Value × Value) → Bool
  | [], _ => true
  | (key, value) :: entries, others =>
    (match entry? others key with
      | some other => value.equals other
      | none => false) && equalEntries entries others

end

def isNull : Value → Bool
  | .null => true
  | _ => false

def isMap : Value → Bool
  | .map _ => true
  | _ => false

def isText : Value → Bool
  | .text _ => true
  | _ => false

end Value
end ToolGraph
