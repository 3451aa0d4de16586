import ToolGraph.Json.Basic
import ToolGraph.Number.Literal
import ToolGraph.Number.Shortest
import ToolGraph.Text.Digit
import ToolGraph.Text.Encoding

/-! The text of JSON data, on one line or indented. -/
namespace ToolGraph
open Text

namespace Json

/-- How data is laid out. Without an indent it is one line; with one, every item and member has a
line of its own. -/
structure Layout where
  indent : Option Nat
  asciiOnly : Bool := false

def oneLine : Layout := ⟨none, false⟩

/-- The escape of a code below `0x10000`. -/
def unitEscape (code : Nat) : List Char := '\\' :: 'u' :: hexDigits 4 code

/-- The escape of a character; one above the basic plane is a pair of surrogates. -/
def codeEscape (code : Nat) : List Char :=
  if code < 0x10000 then unitEscape code
  else
    unitEscape (0xd800 + (code - 0x10000) / 0x400) ++ unitEscape (0xdc00 + (code - 0x10000) % 0x400)

/-- Quotes, backslashes and control characters are escaped, and what is not ASCII where only
ASCII is written. -/
def charText (asciiOnly : Bool) (c : Char) : List Char :=
  if c = '"' then ['\\', '"']
  else if c = '\\' then ['\\', '\\']
  else if c = '\n' then ['\\', 'n']
  else if c = '\r' then ['\\', 'r']
  else if c = '\t' then ['\\', 't']
  else if c.toNat = 8 then ['\\', 'b']
  else if c.toNat = 12 then ['\\', 'f']
  else if c.toNat < 32 ∨ (asciiOnly = true ∧ 126 < c.toNat) then codeEscape (codeOf c)
  else [c]

def quoted (asciiOnly : Bool) (text : String) : List Char :=
  '"' :: text.toList.flatMap (charText asciiOnly) ++ ['"']

def floatText : Binary64 → String
  | .nan => "NaN"
  | .infinite negative => if negative then "-Infinity" else "Infinity"
  | .finite negative magnitude => Binary64.finiteText negative magnitude

def Layout.margin (layout : Layout) (depth : Nat) : List Char :=
  match layout.indent with
  | none => []
  | some width => '\n' :: List.replicate (width * depth) ' '

def Layout.between (layout : Layout) (depth : Nat) : List Char :=
  match layout.indent with
  | none => [',', ' ']
  | some _ => ',' :: layout.margin depth

mutual

/-- The text of data whose items lie one deeper than `depth`. -/
def chars (layout : Layout) (depth : Nat) : Json → List Char
  | .null => "null".toList
  | .bool value => (if value then "true" else "false").toList
  | .int value => (toString value).toList
  | .float value => (floatText value).toList
  | .text value => quoted layout.asciiOnly value
  | .list [] => ['[', ']']
  | .list (item :: items) =>
    '[' :: layout.margin (depth + 1) ++ chars layout (depth + 1) item ++
      itemChars layout (depth + 1) items ++ layout.margin depth ++ [']']
  | .object [] => ['\x7b', '\x7d']
  | .object ((key, value) :: members) =>
    '\x7b' :: layout.margin (depth + 1) ++ quoted layout.asciiOnly key ++ [':', ' '] ++
      chars layout (depth + 1) value ++ memberChars layout (depth + 1) members ++
      layout.margin depth ++ ['\x7d']

def itemChars (layout : Layout) (depth : Nat) : List Json → List Char
  | [] => []
  | item :: items =>
    layout.between depth ++ chars layout depth item ++ itemChars layout depth items

def memberChars (layout : Layout) (depth : Nat) : List (String × Json) → List Char
  | [] => []
  | (key, value) :: members =>
    layout.between depth ++ quoted layout.asciiOnly key ++ [':', ' '] ++
      chars layout depth value ++ memberChars layout depth members

end

def render (layout : Layout) (json : Json) : String :=
  String.ofList (chars layout 0 json)

def isWritable (value : Int) : Bool := decide (value.natAbs < Nat.pow 10 Number.maxDigits)

mutual

/-- All whole numbers in the data can be written. -/
def isPrintable : Json → Bool
  | .int value => isWritable value
  | .list items => itemsPrintable items
  | .object members => membersPrintable members
  | .null | .bool _ | .float _ | .text _ => true

def itemsPrintable : List Json → Bool
  | [] => true
  | item :: items => item.isPrintable && itemsPrintable items

def membersPrintable : List (String × Json) → Bool
  | [] => true
  | (_, value) :: members => value.isPrintable && membersPrintable members

end

/-- The text of data, unless a whole number in it is too long to be written. -/
def print? (layout : Layout) (json : Json) : Option String :=
  if json.isPrintable then some (json.render layout) else none

end Json
end ToolGraph
