import ToolGraph.Json.Printer
import ToolGraph.Number.Shortest
import ToolGraph.Text.Quoted
import ToolGraph.Value.Basic

/-! The text of data where it becomes part of a name, an address or a message. -/
namespace ToolGraph.Value

def boolText (value : Bool) : String := if value then "True" else "False"

/-- A date as it stands inside a displayed list. -/
def dateForm (date : Date) : String :=
  s!"datetime.date({date.year}, {date.month}, {date.day})"

def offsetForm (offset : Int) : String :=
  if offset = 0 then "datetime.timezone.utc"
  else
    let seconds := (offset * 60) % 86400
    let days := Int.fdiv (offset * 60) 86400
    let parts := (if days = 0 then [] else [s!"days={days}"]) ++
      (if seconds = 0 then [] else [s!"seconds={seconds}"])
    "datetime.timezone(datetime.timedelta(" ++ String.intercalate ", " parts ++ "))"

/-- A time as it stands inside a displayed list; seconds and microseconds that are zero are left
out from the end. -/
def timeForm (time : DateTime) : String :=
  let fields := [time.date.year, time.date.month, time.date.day, time.hour, time.minute]
  let fields :=
    if time.microsecond ≠ 0 then fields ++ [time.second, time.microsecond]
    else if time.second ≠ 0 then fields ++ [time.second]
    else fields
  let zone := match time.offset with
    | none => ""
    | some offset => ", tzinfo=" ++ offsetForm offset
  "datetime.datetime(" ++ String.intercalate ", " (fields.map toString) ++ zone ++ ")"

mutual

def form : Value → String
  | .null => "None"
  | .bool value => boolText value
  | .int value => toString value
  | .float value => value.toText
  | .text value => Text.quote value
  | .date value => dateForm value
  | .dateTime value => timeForm value
  | .bytes value => Text.quoteBytes value
  | .pair first second => "(" ++ first.form ++ ", " ++ second.form ++ ")"
  | .list items => "[" ++ String.intercalate ", " (forms items) ++ "]"
  | .set [] => "set()"
  | .set (item :: items) =>
    "\x7b" ++ String.intercalate ", " (item.form :: forms items) ++ "\x7d"
  | .map entries => "\x7b" ++ String.intercalate ", " (entryForms entries) ++ "\x7d"

def forms : List Value → List String
  | [] => []
  | item :: items => item.form :: forms items

def entryForms : List (Value × Value) → List String
  | [] => []
  | (key, value) :: entries => (key.form ++ ": " ++ value.form) :: entryForms entries

end

def display : Value → String
  | .text value => value
  | .date value => value.toText
  | .dateTime value => value.toText
  | value => value.form

mutual

/-- The data has a text: no whole number in it has more digits than may be written. -/
def isShowable : Value → Bool
  | .int value => Json.isWritable value
  | .pair first second => first.isShowable && second.isShowable
  | .list items | .set items => itemsShowable items
  | .map entries => entriesShowable entries
  | .null | .bool _ | .float _ | .text _ | .date _ | .dateTime _ | .bytes _ => true

def itemsShowable : List Value → Bool
  | [] => true
  | item :: items => item.isShowable && itemsShowable items

def entriesShowable : List (Value × Value) → Bool
  | [] => true
  | (key, value) :: entries => key.isShowable && value.isShowable && entriesShowable entries

end

end ToolGraph.Value
