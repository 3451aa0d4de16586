import ToolGraph.Number.Literal
import ToolGraph.Text.Base64
import ToolGraph.Text.Cut
import ToolGraph.Value.Basic
import ToolGraph.Yaml.Cursor

/-!
Scalars: the type that the form of a plain text shows, and the value of a text of a given type.
-/
namespace ToolGraph.Yaml
open Text

/-- The types of nodes. `merge` and `default` are types of keys that stand for something else. -/
inductive Kind where
  | null
  | bool
  | int
  | float
  | timestamp
  | merge
  | default
  | text
  | binary
  | sequence
  | mapping
  | set
  | ordered
  deriving DecidableEq, Repr

namespace Kind

/-- The type that a complete tag names, if it is known. -/
def ofTag? (tag : String) : Option Kind :=
  [("tag:yaml.org,2002:null", Kind.null), ("tag:yaml.org,2002:bool", .bool),
    ("tag:yaml.org,2002:int", .int), ("tag:yaml.org,2002:float", .float),
    ("tag:yaml.org,2002:timestamp", .timestamp), ("tag:yaml.org,2002:merge", .merge),
    ("tag:yaml.org,2002:value", .default), ("tag:yaml.org,2002:str", .text),
    ("tag:yaml.org,2002:binary", .binary), ("tag:yaml.org,2002:seq", .sequence),
    ("tag:yaml.org,2002:map", .mapping), ("tag:yaml.org,2002:set", .set),
    ("tag:yaml.org,2002:omap", .ordered), ("tag:yaml.org,2002:pairs", .ordered)].lookup tag

end Kind

/-! ### Forms of plain texts -/

def isDigitOrMark (c : Char) : Bool := isAsciiDigit c || c == '_'

def isWholeForm (text : List Char) : Bool :=
  text.head?.any isAsciiDigit && text.all isDigitOrMark

/-- A part of a number to the base sixty. -/
def isSixtieth (part : List Char) : Bool :=
  match part with
  | [unit] => isAsciiDigit unit
  | [ten, unit] => decide ('0' ≤ ten) && decide (ten ≤ '5') && isAsciiDigit unit
  | _ => false

def isIntForm (text : List Char) : Bool :=
  let (_, text) := Number.cutSign text
  match text with
  | ['0'] => true
  | '0' :: 'b' :: digits => !digits.isEmpty && digits.all (fun c => c == '0' || c == '1' || c == '_')
  | '0' :: 'x' :: digits =>
    !digits.isEmpty && digits.all (fun c => (hexDigit? c).isSome || c == '_')
  | '0' :: digits =>
    !digits.isEmpty && digits.all (fun c => (decide ('0' ≤ c) && decide (c ≤ '7')) || c == '_')
  | _ =>
    match splitAt ':' text with
    | first :: parts => isWholeForm first && parts.all isSixtieth
    | [] => false

/-- A mark `e` with a signed exponent, or nothing. -/
def isExponentForm (text : List Char) : Bool :=
  match text with
  | [] => true
  | mark :: sign :: digits =>
    (mark == 'e' || mark == 'E') && (sign == '-' || sign == '+') &&
      !digits.isEmpty && digits.all isAsciiDigit
  | _ => false

def isFloatForm (text : List Char) : Bool :=
  let (_, unsigned) := Number.cutSign text
  let special := [".inf", ".Inf", ".INF"].contains (String.ofList unsigned) ||
    [".nan", ".NaN", ".NAN"].contains (String.ofList text)
  let (whole, rest) := unsigned.span (· != '.')
  match rest with
  | [] => false
  | _ :: rest =>
    let fraction := rest.takeWhile isDigitOrMark
    let exponent := isExponentForm (rest.dropWhile isDigitOrMark)
    special ||
      (isWholeForm whole && exponent) ||
      (text.head? == some '.' && isWholeForm fraction && exponent) ||
      (match splitAt ':' whole with
      | first :: part :: parts =>
        isWholeForm first && (part :: parts).all isSixtieth && rest.all isDigitOrMark
      | _ => false)

/-! ### Timestamps -/

def cutNumber? (least most : Nat) (text : List Char) : Option (Nat × Nat × List Char) :=
  let digits := (text.takeWhile isAsciiDigit).take most
  if least ≤ digits.length then
    some (digits.length, Number.digitsValue digits, text.drop digits.length)
  else none

def cutMark? (mark : Char) (text : List Char) : Option (List Char) :=
  match text with
  | c :: rest => if c = mark then some rest else none
  | [] => none

def isLineBlank (c : Char) : Bool := c == ' ' || c == '\t'

/-- An offset at the end of a time in minutes; `Z` is none from universal time. -/
def readOffset? (text : List Char) : Option (Option Int) :=
  match text with
  | [] => some none
  | _ =>
    match text.dropWhile isLineBlank with
    | ['Z'] => some (some 0)
    | sign :: rest => do
      if sign ≠ '+' ∧ sign ≠ '-' then none
      let (_, hours, rest) ← cutNumber? 1 2 rest
      let minutes ←
        match rest with
        | [] => some 0
        | _ => do
          let (_, minutes, rest) ← cutNumber? 2 2 (← cutMark? ':' rest)
          if rest.isEmpty then some minutes else none
      let offset : Int := hours * 60 + minutes
      some (some (if sign = '-' then -offset else offset))
    | [] => none

/-- The microseconds of a fraction of a second; further digits are dropped. -/
def microseconds (digits : List Char) : Nat :=
  Number.digitsValue ((digits ++ List.replicate 6 '0').take 6)

/-- The parts of a date, with a time of day or without, which need not exist. The first component
says that the month and the day have two digits. -/
def readTimestamp? (text : List Char) : Option (Bool × Date × Option DateTime) := do
  let (_, year, rest) ← cutNumber? 4 4 text
  let (monthDigits, month, rest) ← cutNumber? 1 2 (← cutMark? '-' rest)
  let (dayDigits, day, rest) ← cutNumber? 1 2 (← cutMark? '-' rest)
  let date : Date := { year, month, day }
  let full := monthDigits == 2 && dayDigits == 2
  match rest with
  | [] => return (full, date, none)
  | c :: after =>
    let rest ←
      if c = 'T' ∨ c = 't' then some after
      else if isLineBlank c then some (rest.dropWhile isLineBlank)
      else none
    let (_, hour, rest) ← cutNumber? 1 2 rest
    let (_, minute, rest) ← cutNumber? 2 2 (← cutMark? ':' rest)
    let (_, second, rest) ← cutNumber? 2 2 (← cutMark? ':' rest)
    let (fraction, rest) :=
      match rest with
      | '.' :: rest => (rest.takeWhile isAsciiDigit, rest.dropWhile isAsciiDigit)
      | _ => ([], rest)
    let offset ← readOffset? rest
    return (full, date,
      some { date, hour, minute, second, microsecond := microseconds fraction, offset })

/-- A plain text is a timestamp. A date by itself has all its digits. -/
def isTimestampForm (text : List Char) : Bool :=
  match readTimestamp? text with
  | some (full, _, time) => full || time.isSome
  | none => false

def boolWords : List String :=
  ["yes", "Yes", "YES", "no", "No", "NO", "true", "True", "TRUE", "false", "False", "FALSE",
    "on", "On", "ON", "off", "Off", "OFF"]

/-- A text without the newline at its end. The forms of plain texts are not looked for in that newline,
which only a block has. -/
def dropNewline (text : List Char) : List Char :=
  if text.getLast? = some '\n' then text.dropLast else text

def Kind.ofPlain (text : String) : Kind :=
  let chars := dropNewline text.toList
  let form := String.ofList chars
  if boolWords.contains form then .bool
  else if isFloatForm chars then .float
  else if isIntForm chars then .int
  else if form = "<<" then .merge
  else if text = "" ∨ ["~", "null", "Null", "NULL"].contains form then .null
  else if isTimestampForm chars then .timestamp
  else if form = "=" then .default
  else .text

/-! ### Values -/

def digitIn? (base : Nat) (c : Char) : Option Nat :=
  match hexDigit? c with
  | some value => if value < base then some value else none
  | none => none

def readBase? (base : Nat) (letter : Char) (text : List Char) : Option Int :=
  let (negative, text) := Number.cutSign (trimWhile Number.isAsciiBlank (Number.asciiForm text))
  let digits :=
    match text with
    | '0' :: mark :: rest => if mark.toLower = letter then rest else text
    | _ => text
  if digits.isEmpty then none
  else
    (digits.mapM (digitIn? base)).map (fun values =>
      let value : Int := (values.foldl (fun value digit => value * base + digit) 0 : Nat)
      if negative then -value else value)

def sixtieths (base : Int) : List Int → Int
  | [] => 0
  | part :: parts => part * base + sixtieths (base * 60) parts

def valued {α : Type} (value : Option α) : Except Error α :=
  match value with
  | some value => .ok value
  | none => .error .impossibleValue

/-- A whole number: binary after `0b`, hexadecimal after `0x`, octal after `0`, else decimal, with
colons to the base sixty. Underscores do not count. -/
def intValue (text : List Char) : Except Error Int :=
  match text.filter (· != '_') with
  | [] => .error .emptyNumber
  | c :: rest =>
    let sign : Int := if c = '-' then -1 else 1
    let digits := if c = '-' ∨ c = '+' then rest else c :: rest
    match digits with
    | ['0'] => .ok 0
    | '0' :: 'b' :: digits => (valued (readBase? 2 'b' digits)).map (sign * ·)
    | '0' :: 'x' :: digits => (valued (readBase? 16 'x' digits)).map (sign * ·)
    | '0' :: _ => (valued (readBase? 8 'o' digits)).map (sign * ·)
    | [] => .error .emptyNumber
    | _ =>
      if digits.contains ':' then
        (valued ((splitAt ':' digits).mapM Number.readInt?)).map
          (fun parts => sign * sixtieths 1 parts.reverse)
      else (valued (Number.readInt? digits)).map (sign * ·)

/-- As `sixtieths`, rounded after every step. A power of the base may be too large for a float. -/
def floatSixtieths (value : Binary64) (base : Int) : List Binary64 → Except Error Binary64
  | [] => .ok value
  | part :: parts =>
    let weight := Binary64.ofInt base
    if weight.isFinite then floatSixtieths (value.add (part.mul weight)) (base * 60) parts
    else .error .codeOverflow

def floatValue (text : List Char) : Except Error Binary64 :=
  match (text.filter (· != '_')).map Char.toLower with
  | [] => .error .emptyNumber
  | c :: rest =>
    let digits := if c = '-' ∨ c = '+' then rest else c :: rest
    let signed (value : Binary64) : Binary64 := if c = '-' then value.neg else value
    if digits = ".inf".toList then .ok (.infinite (c == '-'))
    else if digits = ".nan".toList then .ok .nan
    else if digits.contains ':' then do
      let parts ← valued ((splitAt ':' digits).mapM Number.readFloat?)
      return signed (← floatSixtieths .zero 1 parts.reverse)
    else (valued (Number.readFloat? digits)).map signed

def boolValue (text : String) : Except Error Bool :=
  let word := String.ofList (text.toList.map Char.toLower)
  if ["yes", "true", "on"].contains word then .ok true
  else if ["no", "false", "off"].contains word then .ok false
  else .error .unknownWord

def timestampValue (text : List Char) : Except Error Value :=
  match readTimestamp? (dropNewline text) with
  | none => .error .noTimestamp
  | some (_, date, none) => if date.isValid then .ok (.date date) else .error .impossibleValue
  | some (_, _, some time) =>
    if time.isValid then .ok (.dateTime time) else .error .impossibleValue

def binaryValue (text : List Char) : Except Error Value :=
  if text.all (fun c => decide (c.toNat < 128)) then
    match Base64.decode? text with
    | some bytes => .ok (.bytes bytes)
    | none => .error .malformed
  else .error .malformed

end ToolGraph.Yaml
