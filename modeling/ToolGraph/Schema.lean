import ToolGraph.Error
import ToolGraph.Text.Lower
import ToolGraph.Value.Display

/-!
Checks that turn loose data into typed data. A check reports every issue it finds, in the order of
the fields, and is generous: numbers may be written as texts, truth values as words.
-/
namespace ToolGraph

/-- A checked value, or what is wrong with the data. -/
inductive Checked (α : Type) where
  | valid (value : α)
  | invalid (issues : List Issue)

namespace Checked
variable {α β : Type}

def map (f : α → β) : Checked α → Checked β
  | .valid value => .valid (f value)
  | .invalid issues => .invalid issues

/-- Applies a function when both sides are valid; the issues of both sides are kept. -/
def seq (f : Checked (α → β)) (x : Unit → Checked α) : Checked β :=
  match f, x () with
  | .valid f, .valid value => .valid (f value)
  | .invalid issues, .valid _ => .invalid issues
  | .valid _, .invalid issues => .invalid issues
  | .invalid first, .invalid second => .invalid (first ++ second)

instance : Functor Checked where
  map := map

instance : Seq Checked where
  seq := seq

def issue (kind : IssueKind) : Checked α := .invalid [⟨[], kind⟩]

def within (step : Step) : Checked α → Checked α
  | .valid value => .valid value
  | .invalid issues => .invalid (issues.map (fun issue => ⟨step :: issue.path, issue.kind⟩))

def all : List (Checked α) → Checked (List α)
  | [] => .valid []
  | first :: rest => List.cons <$> first <*> all rest

def toExcept : Checked α → Except (List Issue) α
  | .valid value => .ok value
  | .invalid issues => .error issues

end Checked

namespace Schema
open Text

def text : Value → Checked String
  | .text value => .valid value
  | .bytes value =>
    match decode? value with
    | some chars => .valid (String.ofList chars)
    | none => .issue .stringUnicode
  | _ => .issue .stringType

/-- White space around a number: a separator of any script, or a control character that moves the
position. -/
def isSpace (c : Char) : Bool := isBlank c && !(decide (28 ≤ c.toNat) && decide (c.toNat ≤ 31))

def dropUnderscores? (written : List Char) : Option (List Char) :=
  if written.head? == some '_' || written.getLast? == some '_' || contains ['_', '_'] written then
    none
  else some (written.filter (· != '_'))

def isDigitFromOne (c : Char) : Bool := isAsciiDigit c && c != '0'

/-- Drops zeros and underscores up to the first digit from one on, or to a minus, which may follow
them; the last of them, `last`, stays before a point and at the end. -/
def dropZerosFrom? (last : Char) : List Char → Option (List Char)
  | [] => some [last]
  | c :: rest =>
    if c = '0' ∨ c = '_' then dropZerosFrom? c rest
    else if isDigitFromOne c ∨ c = '-' then some (c :: rest)
    else if c = '.' then some (last :: c :: rest)
    else none

def dropLeadingZeros? : List Char → Option (List Char)
  | [] => none
  | '0' :: rest => dropZerosFrom? '0' rest
  | c :: rest => if isDigitFromOne c then some (c :: rest) else none

/-- Drops a point that zeros follow, and nothing else. -/
def dropZeroFraction (written : List Char) : List Char :=
  let (whole, fraction) := cutAt '.' written
  if !fraction.isEmpty && fraction.all (· == '0') then whole else written

def readPlainWhole? (written : List Char) : Option Int :=
  let (negative, digits) :=
    match written with
    | '-' :: rest => (true, rest)
    | _ => (false, written)
  if digits.isEmpty || !digits.all isAsciiDigit || decide (Number.maxDigits < digits.length) ||
      (digits.head? == some '0' && digits != ['0']) then none
  else some (if negative then -(Number.digitsValue digits : Int) else Number.digitsValue digits)

/-- A whole number that a person wrote: with space around it, a sign, leading zeros, underscores
between the digits, or a point before zeros. -/
def readWhole? (written : List Char) : Option Int := do
  let (sign, digits) ←
    match trimWhile isSpace written with
    | '+' :: rest => if rest.head? == some '-' then none else some ([], rest)
    | '-' :: rest => some (['-'], rest)
    | rest => some ([], rest)
  let digits ← dropUnderscores? (dropZeroFraction (← dropLeadingZeros? digits))
  readPlainWhole? (sign ++ digits)

def isTooLong (written : List Char) : Bool :=
  let digits := if written.head? == some '-' then written.tail else written
  digits.head?.any isDigitFromOne &&
    decide (Number.maxDigits < (digits.takeWhile isAsciiDigit).length)

def readPlainNumber? (written : List Char) : Option Binary64 :=
  if written.all (fun c => decide (c.toNat < 128) && !isBlank c && c != '_') then
    Number.readFloat? written
  else none

def readNumber? (written : List Char) : Option Binary64 :=
  match readPlainNumber? (trimWhile isSpace written) with
  | some number => some number
  | none => (dropUnderscores? written).bind readPlainNumber?

/-- The whole numbers that fit into 64 bits bound what a float may stand for. -/
def wideLimit : Int := Int.ofNat (1 <<< 63)

def whole : Value → Checked Int
  | .int value => .valid value
  | .bool value => .valid (if value then 1 else 0)
  | .text value =>
    if isTooLong value.toList then .issue .intParsingSize
    else
      match readWhole? value.toList with
      | some number => .valid number
      | none => .issue .intParsing
  | .float value =>
    if !value.isFinite then .issue .finiteNumber
    else
      match value.toInt? with
      | none => .issue .intFromFloat
      | some number =>
        if -wideLimit < number ∧ number < wideLimit then .valid number else .issue .intParsingSize
  | _ => .issue .intType

def wholeFrom (least : Int) (value : Value) : Checked Int :=
  match whole value with
  | .valid number => if least ≤ number then .valid number else .issue .atLeast
  | .invalid issues => .invalid issues

def number : Value → Checked Binary64
  | .float value => .valid value
  | .int value =>
    let number := Binary64.ofInt value
    if number.isFinite then .valid number else .issue .floatType
  | .bool value => .valid (Binary64.ofInt (if value then 1 else 0))
  | .text value =>
    match readNumber? value.toList with
    | some number => .valid number
    | none => .issue .floatParsing
  | _ => .issue .floatType

def trueWords : List String := ["1", "on", "t", "true", "y", "yes"]

def falseWords : List String := ["0", "off", "f", "false", "n", "no"]

/-- The numbers one and zero stand for truth values. -/
def boolOfWhole (number : Int) : Checked Bool :=
  if number = 1 then .valid true else if number = 0 then .valid false else .issue .boolParsing

def bool : Value → Checked Bool
  | .bool value => .valid value
  | .text value =>
    let word := String.ofList (value.toList.map Char.toLower)
    if trueWords.contains word then .valid true
    else if falseWords.contains word then .valid false
    else .issue .boolParsing
  | .int value =>
    if -wideLimit ≤ value ∧ value < wideLimit then boolOfWhole value else .issue .boolType
  | .float value =>
    match value.toInt? with
    | some number =>
      if -wideLimit < number ∧ number < wideLimit then boolOfWhole number else .issue .boolType
    | none => .issue .boolType
  | _ => .issue .boolType

def optional {α : Type} (check : Value → Checked α) : Value → Checked (Option α)
  | .null => .valid none
  | value => (check value).map some

def keyStep : Value → Step
  | .text name => .key name
  | .int position => if 0 ≤ position then .index position.toNat else .key (toString position)
  | key => .key key.form

/-- The key of an entry, which must be a text. -/
def key (key : Value) : Checked String :=
  .within (keyStep key) (.within (.key "[key]") (text key))

def table {α : Type} (check : Value → Checked α) : Value → Checked (Entries String α)
  | .map entries =>
    Entries.ofPairs <$> .all (entries.map (fun entry =>
      Prod.mk <$> key entry.1 <*> .within (keyStep entry.1) (check entry.2)))
  | _ => .issue .dictType

def any (value : Value) : Checked Value := .valid value

def items {α : Type} (check : Value → Checked α) (list : List Value) : Checked (List α) :=
  .all (list.mapIdx (fun position item => .within (.index position) (check item)))

def sequence {α : Type} (check : Value → Checked α) : Value → Checked (List α)
  | .list list => items check list
  | _ => .issue .sequenceType

def lookup? (entries : List (Value × Value)) : (names : List String) → Option (String × Value)
  | [] => none
  | name :: names =>
    match Value.entry? entries (.text name) with
    | some value => some (name, value)
    | none => lookup? entries names

/-- A field that may go by several names. Without a value it has a default, or is reported under
its first name. -/
def field {α : Type} (entries : List (Value × Value)) (names : List String)
    (check : Value → Checked α) (fallback : Option α) : Checked α :=
  match lookup? entries names with
  | some (name, value) => .within (.key name) (check value)
  | none =>
    match fallback with
    | some value => .valid value
    | none => .within (.key (names.headD "")) (.issue .missing)

def record {α : Type} (check : List (Value × Value) → Checked α) : Value → Checked α
  | .map entries => check entries
  | _ => .issue .modelType

end Schema
end ToolGraph
