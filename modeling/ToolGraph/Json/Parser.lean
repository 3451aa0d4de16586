import ToolGraph.Json.Basic
import ToolGraph.Number.Literal
import ToolGraph.Text.Encoding

/-!
Reading JSON. The three numbers that are not finite have names, and a member that comes twice keeps
its first place and its last value.
-/
namespace ToolGraph
open Text

/-- Why a text is not read as JSON. -/
inductive JsonError where
  | malformed
  | hugeInteger
  deriving DecidableEq, Repr

namespace Json

def isSpace (c : Char) : Bool := c == ' ' || c == '\t' || c == '\n' || c == '\r'

def skipSpaces (text : List Char) : List Char := text.dropWhile isSpace

/-- The code unit that a character after a backslash stands for. -/
def escapedUnit? : Char → Option Nat
  | '"' => some 34
  | '\\' => some 92
  | '/' => some 47
  | 'b' => some 8
  | 'f' => some 12
  | 'n' => some 10
  | 'r' => some 13
  | 't' => some 9
  | _ => none

/-- The code units of a quoted text, its opening quote already read, and what follows the closing
one. A character that is not escaped stands for its own code. -/
def readUnits : List Char → Except JsonError (List Nat × List Char)
  | [] => .error .malformed
  | '"' :: rest => .ok ([], rest)
  | '\\' :: 'u' :: a :: b :: c :: d :: rest =>
    match hexDigit? a, hexDigit? b, hexDigit? c, hexDigit? d with
    | some a, some b, some c, some d =>
      (readUnits rest).map (fun read => ((((a * 16 + b) * 16 + c) * 16 + d) :: read.1, read.2))
    | _, _, _, _ => .error .malformed
  | '\\' :: c :: rest =>
    match escapedUnit? c with
    | some unit => (readUnits rest).map (fun read => (unit :: read.1, read.2))
    | none => .error .malformed
  | c :: rest =>
    if c.toNat < 32 then .error .malformed
    else (readUnits rest).map (fun read => (c.toNat :: read.1, read.2))

def readText (text : List Char) : Except JsonError (String × List Char) :=
  (readUnits text).map (fun read => (String.ofList (ofUnits16 read.1), read.2))

def cutWhole (text : List Char) : List Char × List Char :=
  match text with
  | '0' :: rest => (['0'], rest)
  | _ => (text.takeWhile isAsciiDigit, text.dropWhile isAsciiDigit)

def cutFraction? (text : List Char) : Option (List Char × List Char) :=
  match text with
  | '.' :: rest =>
    if rest.head?.any isAsciiDigit then
      some (rest.takeWhile isAsciiDigit, rest.dropWhile isAsciiDigit)
    else none
  | _ => none

/-- A mark `e` and the signed digits after it, if there are any. -/
def cutExponent? (text : List Char) : Option (Int × List Char) :=
  match text with
  | mark :: rest =>
    let (negative, rest) := Number.cutSign rest
    if (mark == 'e' || mark == 'E') && rest.head?.any isAsciiDigit then
      let value := Number.digitsValue (rest.takeWhile isAsciiDigit)
      some (if negative then -(value : Int) else value, rest.dropWhile isAsciiDigit)
    else none
  | [] => none

def readNumber (negative : Bool) (text : List Char) : Except JsonError (Json × List Char) :=
  let (whole, rest) := cutWhole text
  if whole.isEmpty then .error .malformed
  else
    match cutFraction? rest with
    | some (fraction, rest) =>
      let (exponent, rest) := (cutExponent? rest).getD (0, rest)
      .ok (.float (Binary64.ofDecimal negative (Number.digitsValue (whole ++ fraction))
        (exponent - fraction.length)), rest)
    | none =>
      match cutExponent? rest with
      | some (exponent, rest) =>
        .ok (.float (Binary64.ofDecimal negative (Number.digitsValue whole) exponent), rest)
      | none =>
        if Number.maxDigits < whole.length then .error .hugeInteger
        else
          let value := Number.digitsValue whole
          .ok (.int (if negative then -(value : Int) else value), rest)

def words : List (List Char × Json) := [
  ("null".toList, .null), ("true".toList, .bool true), ("false".toList, .bool false),
  ("NaN".toList, .float .nan), ("Infinity".toList, .float (.infinite false)),
  ("-Infinity".toList, .float (.infinite true))]

def readScalar (text : List Char) : Except JsonError (Json × List Char) :=
  match text with
  | '"' :: rest => (readText rest).map (fun read => (.text read.1, read.2))
  | _ =>
    match words.find? (fun word => word.1.isPrefixOf text) with
    | some (word, value) => .ok (value, text.drop word.length)
    | none =>
      match text with
      | '-' :: rest => readNumber true rest
      | _ => readNumber false text

mutual

def readValue : (steps : Nat) → List Char → Except JsonError (Json × List Char)
  | 0, _ => .error .malformed
  | steps + 1, '[' :: rest =>
    match skipSpaces rest with
    | ']' :: rest => .ok (.list [], rest)
    | rest => (readItems steps rest).map (fun read => (.list read.1, read.2))
  | steps + 1, '\x7b' :: rest =>
    match skipSpaces rest with
    | '\x7d' :: rest => .ok (.object [], rest)
    | rest => (readMembers steps rest).map (fun read => (.object (Entries.ofPairs read.1), read.2))
  | _ + 1, start => readScalar start

def readItems : (steps : Nat) → List Char → Except JsonError (List Json × List Char)
  | 0, _ => .error .malformed
  | steps + 1, start => do
    let (item, rest) ← readValue steps start
    match skipSpaces rest with
    | ']' :: rest => return ([item], rest)
    | ',' :: rest =>
      let (items, rest) ← readItems steps (skipSpaces rest)
      return (item :: items, rest)
    | _ => throw .malformed

def readMembers : (steps : Nat) → List Char → Except JsonError (List (String × Json) × List Char)
  | 0, _ => .error .malformed
  | steps + 1, '"' :: rest => do
    let (key, rest) ← readText rest
    match skipSpaces rest with
    | ':' :: rest =>
      let (value, rest) ← readValue steps (skipSpaces rest)
      match skipSpaces rest with
      | '\x7d' :: rest => return ([(key, value)], rest)
      | ',' :: rest =>
        let (members, rest) ← readMembers steps (skipSpaces rest)
        return ((key, value) :: members, rest)
      | _ => throw .malformed
    | _ => throw .malformed
  | _ + 1, _ => .error .malformed

end

/-- Reads a whole text. Every step takes a character, so its length bounds the steps. -/
def parse (text : String) : Except JsonError Json := do
  let chars := text.toList
  let (value, rest) ← readValue (chars.length + 1) (skipSpaces chars)
  if (skipSpaces rest).isEmpty then return value else throw .malformed

end Json
end ToolGraph
