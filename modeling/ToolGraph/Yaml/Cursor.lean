/-! A place in a YAML text, with its line and column. -/
namespace ToolGraph.Yaml

/-- Why a text is not read as a YAML document. All but the first come from a scalar or an escape
whose text has the form of its type and yet names no value. -/
inductive Error where
  | malformed
  | impossibleValue
  | unknownWord
  | emptyNumber
  | noTimestamp
  | codeOverflow
  deriving DecidableEq, Repr

structure Cursor where
  rest : List Char
  index : Nat
  line : Nat
  column : Nat

/-- The mark behind the last character. It occurs in no text. -/
def endMark : Char := Char.ofNat 0

def isBreak (c : Char) : Bool :=
  c == '\n' || c == '\r' || c.toNat == 0x85 || c.toNat == 0x2028 || c.toNat == 0x2029

def isBreakOrEnd (c : Char) : Bool := isBreak c || c == endMark

def isSpaceOrEnd (c : Char) : Bool := isBreakOrEnd c || c == ' '

def isBlankOrEnd (c : Char) : Bool := isSpaceOrEnd c || c == '\t'

/-- A character that a name may have: of an anchor, a handle or a directive. -/
def isNameChar (c : Char) : Bool := c.isAlphanum || c == '-' || c == '_'

/-- A character that may stand in a text: printable, a tab or a line break. -/
def isAllowed (c : Char) : Bool :=
  let code := c.toNat
  code == 9 || code == 10 || code == 13 || code == 0x85 ||
    (decide (0x20 ≤ code) && decide (code ≤ 0x7e)) ||
    (decide (0xa0 ≤ code) && decide (code ≤ 0xfffd)) || decide (0x10000 ≤ code)

namespace Cursor

def start (text : List Char) : Cursor := ⟨text, 0, 0, 0⟩

/-- The character that is `ahead` characters on. -/
def look (cursor : Cursor) (ahead : Nat) : Char := cursor.rest.getD ahead endMark

def peek (cursor : Cursor) : Char := cursor.look 0

def atEnd (cursor : Cursor) : Bool := cursor.rest.isEmpty

/-- One character on. A carriage return before a line feed ends no line by itself. -/
def step (cursor : Cursor) : Cursor :=
  match cursor.rest with
  | [] => cursor
  | c :: rest =>
    if isBreak c && !(c == '\r' && rest.head? == some '\n') then
      ⟨rest, cursor.index + 1, cursor.line + 1, 0⟩
    else
      ⟨rest, cursor.index + 1, cursor.line, cursor.column + (if c.toNat = 0xfeff then 0 else 1)⟩

def skip (cursor : Cursor) : (count : Nat) → Cursor
  | 0 => cursor
  | count + 1 => cursor.step.skip count

/-- The longest run of characters with the property, and the place behind it. -/
def span (cursor : Cursor) (p : Char → Bool) : List Char × Cursor :=
  let run := cursor.rest.takeWhile p
  (run, cursor.skip run.length)

def skipWhile (cursor : Cursor) (p : Char → Bool) : Cursor := (cursor.span p).2

def skipSpacesTo (cursor : Cursor) (column : Nat) : Cursor :=
  cursor.skip (min (column - cursor.column) (cursor.rest.takeWhile (· == ' ')).length)

/-- The line break here, as it is kept, and the place behind it. The usual breaks are kept as line
feeds. -/
def lineBreak? (cursor : Cursor) : Option (Char × Cursor) :=
  let c := cursor.peek
  if c = '\r' ∧ cursor.look 1 = '\n' then some ('\n', cursor.skip 2)
  else if c = '\n' ∨ c = '\r' ∨ c.toNat = 0x85 then some ('\n', cursor.step)
  else if isBreak c then some (c, cursor.step)
  else none

/-- A line of three marks that separates documents starts here. -/
def atSeparator (cursor : Cursor) : Bool :=
  (['-', '-', '-'].isPrefixOf cursor.rest || ['.', '.', '.'].isPrefixOf cursor.rest) &&
    isBlankOrEnd (cursor.look 3)

/-- Skips spaces, a comment and the line break behind them; nothing else may stand there. -/
def skipRestOfLine (cursor : Cursor) : Except Error Cursor :=
  let cursor := cursor.skipWhile (· == ' ')
  let cursor := if cursor.peek = '#' then cursor.skipWhile (!isBreakOrEnd ·) else cursor
  match cursor.lineBreak? with
  | some (_, cursor) => .ok cursor
  | none => if cursor.atEnd then .ok cursor else .error .malformed

end Cursor
end ToolGraph.Yaml
