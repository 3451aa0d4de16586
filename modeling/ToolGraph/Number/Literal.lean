import ToolGraph.Number.Binary64
import ToolGraph.Text.Blank
import ToolGraph.Text.Digit

/-!
Numbers written by people: blanks around them, digits of any script, single underscores between
digits.
-/
namespace ToolGraph.Number
open Text

/-- The most decimal digits that a whole number may be written with. -/
def maxDigits : Nat := 4300

def isAsciiBlank (c : Char) : Bool := c == ' ' || (decide (9 ≤ c.toNat) && decide (c.toNat ≤ 13))

/-- Digits of any script become ASCII digits, and the blanks beyond ASCII spaces. -/
def asciiForm (text : List Char) : List Char :=
  text.map (fun c =>
    if c.toNat < 128 then c
    else if isBlank c then ' '
    else
      match digitValue? c with
      | some value => Char.ofNat (48 + value)
      | none => c)

def cutSign (text : List Char) : Bool × List Char :=
  match text with
  | '-' :: rest => (true, rest)
  | '+' :: rest => (false, rest)
  | _ => (false, text)

def digitsValue (digits : List Char) : Nat :=
  digits.foldl (fun value c => value * 10 + (c.toNat - 48)) 0

/-- The digits at the start of a text, single underscores between them left out, and the rest.
`after` says that a digit comes just before. -/
def cutDigits (after : Bool) : List Char → List Char × List Char
  | [] => ([], [])
  | c :: rest =>
    if isAsciiDigit c then
      let (digits, tail) := cutDigits true rest
      (c :: digits, tail)
    else if c = '_' ∧ after = true ∧ rest.head?.any isAsciiDigit then cutDigits false rest
    else ([], c :: rest)

/-- Reads a whole number in decimal. -/
def readInt? (text : List Char) : Option Int :=
  let text := trimWhile isAsciiBlank (asciiForm text)
  let (negative, text) := cutSign text
  let (digits, rest) := cutDigits false text
  if digits.isEmpty || !rest.isEmpty || decide (maxDigits < digits.length) then none
  else some (if negative then -(digitsValue digits : Int) else digitsValue digits)

/-- Reads the exponent behind a mark `e`. Without one the exponent is zero. -/
def readExponent? (text : List Char) : Option Int :=
  match text with
  | [] => some 0
  | mark :: rest =>
    if mark = 'e' ∨ mark = 'E' then
      let (negative, rest) := cutSign rest
      let (digits, rest) := cutDigits false rest
      if digits.isEmpty || !rest.isEmpty then none
      else some (if negative then -(digitsValue digits : Int) else digitsValue digits)
    else none

def readDecimal? (negative : Bool) (text : List Char) : Option Binary64 :=
  let (whole, rest) := cutDigits false text
  let (fraction, rest) :=
    match rest with
    | '.' :: rest => cutDigits false rest
    | _ => ([], rest)
  if whole.isEmpty && fraction.isEmpty then none
  else
    (readExponent? rest).map (fun exponent =>
      Binary64.ofDecimal negative (digitsValue (whole ++ fraction)) (exponent - fraction.length))

def readFloat? (text : List Char) : Option Binary64 :=
  let text := trimWhile isAsciiBlank (asciiForm text)
  let (negative, text) := cutSign text
  let word := String.ofList (text.map Char.toLower)
  if word = "inf" ∨ word = "infinity" then some (.infinite negative)
  else if word = "nan" then some .nan
  else readDecimal? negative text

end ToolGraph.Number
