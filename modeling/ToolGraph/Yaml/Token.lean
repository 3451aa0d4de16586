import ToolGraph.Yaml.Lexeme

/-!
The tokens of a YAML text. Indentation becomes block tokens, and a scalar or a collection that turns
out to be a key gets its key token when the colon behind it is met.
-/
namespace ToolGraph.Yaml

inductive Token where
  | streamEnd
  | directive (directive : Directive)
  | documentStart
  | documentEnd
  | blockSequenceStart
  | blockMappingStart
  | blockEnd
  | flowSequenceStart
  | flowSequenceEnd
  | flowMappingStart
  | flowMappingEnd
  | blockEntry
  | flowEntry
  | key
  | value
  | alias (name : String)
  | anchor (name : String)
  | tag (tag : WrittenTag)
  | scalar (text : String) (plain : Bool)
  deriving DecidableEq, Repr

/-- A place where a key may have begun. One that stands at the indentation of its block must turn
out to be a key. -/
structure PossibleKey where
  position : Nat
  required : Bool
  index : Nat
  line : Nat
  column : Nat

/-- How far the tokens are read. `keys` holds the possible key of each level of flow collections. -/
structure Tokens where
  cursor : Cursor
  done : Array Token
  flowLevel : Nat
  indent : Int
  outerIndents : List Int
  keyAllowed : Bool
  keys : List (Nat × PossibleKey)

namespace Tokens

def start (text : List Char) : Tokens :=
  { cursor := Cursor.start text
    done := #[]
    flowLevel := 0
    indent := -1
    outerIndents := []
    keyAllowed := true
    keys := [] }

def push (tokens : Tokens) (token : Token) : Tokens :=
  { tokens with done := tokens.done.push token }

def insert (tokens : Tokens) (position : Nat) (token : Token) : Tokens :=
  { tokens with done := tokens.done.insertIdxIfInBounds position token }

def inFlow (tokens : Tokens) : Bool := tokens.flowLevel != 0

def skipBlank (steps : Nat) (tokens : Tokens) : Tokens :=
  match steps with
  | 0 => tokens
  | steps + 1 =>
    let cursor := tokens.cursor.skipWhile (· == ' ')
    let cursor := if cursor.peek = '#' then cursor.skipWhile (!isBreakOrEnd ·) else cursor
    match cursor.lineBreak? with
    | some (_, after) =>
      skipBlank steps { tokens with cursor := after, keyAllowed := tokens.keyAllowed || !tokens.inFlow }
    | none => { tokens with cursor }

def dropStaleKeys (tokens : Tokens) : Except Error Tokens :=
  let stale (key : PossibleKey) : Bool :=
    key.line != tokens.cursor.line || decide (1024 < tokens.cursor.index - key.index)
  if tokens.keys.any (fun key => stale key.2 && key.2.required) then .error .malformed
  else .ok { tokens with keys := tokens.keys.filter (fun key => !stale key.2) }

def dropKey (tokens : Tokens) : Except Error Tokens :=
  match tokens.keys.lookup tokens.flowLevel with
  | none => .ok tokens
  | some key =>
    if key.required then .error .malformed
    else .ok { tokens with keys := tokens.keys.filter (fun key => key.1 != tokens.flowLevel) }

def saveKey (tokens : Tokens) : Except Error Tokens :=
  if tokens.keyAllowed then do
    let tokens ← tokens.dropKey
    let key : PossibleKey :=
      { position := tokens.done.size
        required := !tokens.inFlow && decide (tokens.indent = tokens.cursor.column)
        index := tokens.cursor.index
        line := tokens.cursor.line
        column := tokens.cursor.column }
    return { tokens with keys := (tokens.flowLevel, key) :: tokens.keys }
  else .ok tokens

/-- Ends the blocks that are indented by more than `column`. -/
def unwind (column : Int) (indent : Int) (outer : List Int) (done : Array Token) :
    Int × List Int × Array Token :=
  match outer with
  | [] => (indent, [], done)
  | next :: rest =>
    if column < indent then unwind column next rest (done.push .blockEnd)
    else (indent, next :: rest, done)

def unwindTo (tokens : Tokens) (column : Int) : Tokens :=
  if tokens.inFlow then tokens
  else
    let (indent, outerIndents, done) :=
      unwind column tokens.indent tokens.outerIndents tokens.done
    { tokens with indent, outerIndents, done }

def openBlock (tokens : Tokens) (column : Int) (position : Nat) (token : Token) : Tokens :=
  if !tokens.inFlow && decide (tokens.indent < column) then
    { tokens with
      indent := column
      outerIndents := tokens.indent :: tokens.outerIndents
      done := tokens.done.insertIdxIfInBounds position token }
  else tokens

def take (tokens : Tokens) (count : Nat) (token : Token) : Tokens :=
  { tokens with cursor := tokens.cursor.skip count, done := tokens.done.push token }

def atMargin (tokens : Tokens) : Except Error Tokens := do
  let tokens ← (tokens.unwindTo (-1)).dropKey
  return { tokens with keyAllowed := false }

def blockEntry (tokens : Tokens) : Except Error Tokens := do
  if !tokens.inFlow && !tokens.keyAllowed then throw .malformed
  let tokens := tokens.openBlock tokens.cursor.column tokens.done.size .blockSequenceStart
  let tokens ← dropKey { tokens with keyAllowed := true }
  return tokens.take 1 .blockEntry

def complexKey (tokens : Tokens) : Except Error Tokens := do
  if !tokens.inFlow && !tokens.keyAllowed then throw .malformed
  let tokens := tokens.openBlock tokens.cursor.column tokens.done.size .blockMappingStart
  let tokens ← dropKey { tokens with keyAllowed := !tokens.inFlow }
  return tokens.take 1 .key

/-- A colon: what may have been a key is one, and if there is none, the key is complex or empty. -/
def keyValue (tokens : Tokens) : Except Error Tokens := do
  match tokens.keys.lookup tokens.flowLevel with
  | some key =>
    let tokens :=
      { tokens with keys := tokens.keys.filter (fun key => key.1 != tokens.flowLevel) }
    let tokens := tokens.insert key.position .key
    let tokens := tokens.openBlock key.column key.position .blockMappingStart
    return take { tokens with keyAllowed := false } 1 .value
  | none =>
    if !tokens.inFlow && !tokens.keyAllowed then throw .malformed
    let tokens := tokens.openBlock tokens.cursor.column tokens.done.size .blockMappingStart
    let tokens ← dropKey { tokens with keyAllowed := !tokens.inFlow }
    return tokens.take 1 .value

def openFlow (tokens : Tokens) (token : Token) : Except Error Tokens := do
  let tokens ← tokens.saveKey
  return take { tokens with flowLevel := tokens.flowLevel + 1, keyAllowed := true } 1 token

def closeFlow (tokens : Tokens) (token : Token) : Except Error Tokens := do
  if !tokens.inFlow then throw .malformed
  let tokens ← tokens.dropKey
  return take { tokens with flowLevel := tokens.flowLevel - 1, keyAllowed := false } 1 token

def content (tokens : Tokens) (read : Except Error (Token × Cursor)) : Except Error Tokens := do
  let tokens ← tokens.saveKey
  let (token, cursor) ← read
  return push { tokens with cursor, keyAllowed := false } token

def plainScalar (tokens : Tokens) : Except Error Tokens := do
  let tokens ← tokens.saveKey
  let (text, broken, cursor) := tokens.cursor.plain tokens.inFlow tokens.indent
  return push { tokens with cursor, keyAllowed := broken } (.scalar text true)

def blockScalar (tokens : Tokens) : Except Error Tokens := do
  let tokens ← dropKey { tokens with keyAllowed := true }
  let (text, cursor) ← tokens.cursor.block tokens.indent
  return push { tokens with cursor } (.scalar text false)

/-- A plain scalar may start here. The marks `-`, `?` and `:` start one before a character that is
no blank, the latter two only outside flow collections. -/
def startsPlain (tokens : Tokens) : Bool :=
  let c := tokens.cursor.peek
  if isBlankOrEnd c then false
  else if "-?:,[]\x7b\x7d#&*!|>'\"%@`".toList.contains c then
    !isBlankOrEnd (tokens.cursor.look 1) &&
      (c == '-' || (!tokens.inFlow && (c == '?' || c == ':')))
  else true

def next (tokens : Tokens) : Except Error Tokens :=
  let cursor := tokens.cursor
  let c := cursor.peek
  let alone := isBlankOrEnd (cursor.look 1)
  if c = '%' ∧ cursor.column = 0 then do
    let tokens ← tokens.atMargin
    let (directive, cursor) ← tokens.cursor.directive
    return push { tokens with cursor } (.directive directive)
  else if cursor.column = 0 ∧ cursor.atSeparator = true then do
    let tokens ← tokens.atMargin
    return tokens.take 3 (if c = '-' then .documentStart else .documentEnd)
  else if c = '[' then tokens.openFlow .flowSequenceStart
  else if c = '\x7b' then tokens.openFlow .flowMappingStart
  else if c = ']' then tokens.closeFlow .flowSequenceEnd
  else if c = '\x7d' then tokens.closeFlow .flowMappingEnd
  else if c = ',' then do
    let tokens ← dropKey { tokens with keyAllowed := true }
    return tokens.take 1 .flowEntry
  else if c = '-' ∧ alone = true then tokens.blockEntry
  else if c = '?' ∧ (tokens.inFlow || alone) = true then tokens.complexKey
  else if c = ':' ∧ (tokens.inFlow || alone) = true then tokens.keyValue
  else if c = '*' then tokens.content (cursor.anchorName.map (fun read => (.alias read.1, read.2)))
  else if c = '&' then tokens.content (cursor.anchorName.map (fun read => (.anchor read.1, read.2)))
  else if c = '!' then tokens.content (cursor.tag.map (fun read => (.tag read.1, read.2)))
  else if (c = '|' ∨ c = '>') ∧ tokens.inFlow = false then tokens.blockScalar
  else if c = '\'' ∨ c = '"' then
    tokens.content (cursor.quoted.map (fun read => (.scalar read.1 false, read.2)))
  else if tokens.startsPlain then tokens.plainScalar
  else .error .malformed

def run (steps : Nat) (tokens : Tokens) : Except Error (List Token) :=
  match steps with
  | 0 => .error .malformed
  | steps + 1 => do
    let tokens := tokens.skipBlank (tokens.cursor.rest.length + 1)
    let tokens ← tokens.dropStaleKeys
    let tokens := tokens.unwindTo tokens.cursor.column
    if tokens.cursor.atEnd then
      let tokens ← tokens.atMargin
      return (tokens.push .streamEnd).done.toList
    else run steps (← tokens.next)

/-- The tokens of a text, which may start with a byte order mark. -/
def ofText (text : List Char) : Except Error (List Token) :=
  if text.all isAllowed then
    let tokens := start text
    let tokens :=
      if tokens.cursor.peek.toNat = 0xfeff then { tokens with cursor := tokens.cursor.step }
      else tokens
    tokens.run (text.length + 2)
  else .error .malformed

end Tokens
end ToolGraph.Yaml
