import ToolGraph.Text.Digit
import ToolGraph.Text.Encoding
import ToolGraph.Yaml.Cursor

/-! The parts of a YAML text that have content: directives, anchors, tags and scalars. -/
namespace ToolGraph.Yaml
open Text

inductive Directive where
  | version (major : Nat)
  | handle (name meaning : String)
  | other
  deriving DecidableEq, Repr

/-- A tag as it is written: a handle, if it has one, and a suffix. -/
structure WrittenTag where
  handle : Option String
  suffix : String
  deriving DecidableEq, Repr

namespace Cursor

def name (cursor : Cursor) : Except Error (List Char × Cursor) :=
  let (run, after) := cursor.span isNameChar
  if run.isEmpty then .error .malformed else .ok (run, after)

def escapedBytes (steps : Nat) (cursor : Cursor) : Except Error (Bytes × Cursor) :=
  match steps with
  | 0 => .error .malformed
  | steps + 1 =>
    if cursor.peek ≠ '%' then .ok ([], cursor)
    else
      match hexDigit? (cursor.look 1), hexDigit? (cursor.look 2) with
      | some high, some low =>
        (escapedBytes steps (cursor.skip 3)).map
          (fun read => ((high * 16 + low).toUInt8 :: read.1, read.2))
      | _, _ => .error .malformed

def isUriChar (c : Char) : Bool :=
  c.isAlphanum || "-;/?:@&=+$,_.!~*'()[]".toList.contains c

/-- The characters of a tag, which may be empty here. -/
def uriChars (steps : Nat) (cursor : Cursor) : Except Error (List Char × Cursor) :=
  match steps with
  | 0 => .error .malformed
  | steps + 1 =>
    let (run, after) := cursor.span isUriChar
    if after.peek ≠ '%' then .ok (run, after)
    else do
      let (bytes, after) ← escapedBytes (after.rest.length + 1) after
      match decode? bytes with
      | none => .error .malformed
      | some chars =>
        let (more, after) ← uriChars steps after
        return (run ++ chars ++ more, after)

def uri (cursor : Cursor) : Except Error (String × Cursor) := do
  let (chars, after) ← uriChars (cursor.rest.length + 1) cursor
  if after.index = cursor.index then .error .malformed
  else return (String.ofList chars, after)

/-- A handle: one exclamation mark, or two around a name, which may be empty. -/
def handle (cursor : Cursor) : Except Error (String × Cursor) :=
  if cursor.peek ≠ '!' then .error .malformed
  else
    let (run, after) := cursor.step.span isNameChar
    if run.isEmpty && after.peek == ' ' then .ok ("!", after)
    else if after.peek = '!' then .ok (String.ofList ('!' :: run ++ ['!']), after.step)
    else .error .malformed

def digits (cursor : Cursor) : Except Error (Nat × Cursor) :=
  let (run, after) := cursor.span isAsciiDigit
  if run.isEmpty then .error .malformed
  else .ok (run.foldl (fun value c => value * 10 + (c.toNat - 48)) 0, after)

def directive (cursor : Cursor) : Except Error (Directive × Cursor) := do
  let (name, cursor) ← cursor.step.name
  if !isSpaceOrEnd cursor.peek then throw .malformed
  if name = "YAML".toList then
    let (major, cursor) ← (cursor.skipWhile (· == ' ')).digits
    if cursor.peek ≠ '.' then throw .malformed
    let (_, cursor) ← cursor.step.digits
    if !isSpaceOrEnd cursor.peek then throw .malformed
    return (.version major, ← cursor.skipRestOfLine)
  else if name = "TAG".toList then
    let (handle, cursor) ← (cursor.skipWhile (· == ' ')).handle
    if cursor.peek ≠ ' ' then throw .malformed
    let (meaning, cursor) ← (cursor.skipWhile (· == ' ')).uri
    if !isSpaceOrEnd cursor.peek then throw .malformed
    return (.handle handle meaning, ← cursor.skipRestOfLine)
  else
    return (.other, ← (cursor.skipWhile (!isBreakOrEnd ·)).skipRestOfLine)

def anchorName (cursor : Cursor) : Except Error (String × Cursor) := do
  let (name, after) ← cursor.step.name
  let next := after.peek
  if isBlankOrEnd next || "?:,]\x7d%@`".toList.contains next then
    return (String.ofList name, after)
  else throw .malformed

def tag (cursor : Cursor) : Except Error (WrittenTag × Cursor) := do
  let next := cursor.look 1
  let (tag, after) ←
    if next = '<' then do
      let (suffix, after) ← (cursor.skip 2).uri
      if after.peek ≠ '>' then throw .malformed
      pure ((⟨none, suffix⟩ : WrittenTag), after.step)
    else if isBlankOrEnd next then pure (⟨none, "!"⟩, cursor.step)
    else do
      let ahead := cursor.rest.tail.takeWhile (!isSpaceOrEnd ·)
      let (handle, after) ←
        if ahead.contains '!' then cursor.handle else pure ("!", cursor.step)
      let (suffix, after) ← after.uri
      pure (⟨some handle, suffix⟩, after)
  if isSpaceOrEnd after.peek then return (tag, after) else throw .malformed

/-! ### Quoted scalars -/

def blankLines (steps : Nat) (cursor : Cursor) : Except Error (List Char × Cursor) :=
  match steps with
  | 0 => .error .malformed
  | steps + 1 =>
    if cursor.atSeparator then .error .malformed
    else
      let cursor := cursor.skipWhile (fun c => c == ' ' || c == '\t')
      match cursor.lineBreak? with
      | some (kept, after) => (blankLines steps after).map (fun read => (kept :: read.1, read.2))
      | none => .ok ([], cursor)

def foldBreak (kept : Char) (breaks : List Char) : List Char :=
  if kept ≠ '\n' then kept :: breaks else if breaks.isEmpty then [' '] else breaks

def quotedBlanks (cursor : Cursor) : Except Error (List Char × Cursor) :=
  let (run, after) := cursor.span (fun c => c == ' ' || c == '\t')
  if after.atEnd then .error .malformed
  else
    match after.lineBreak? with
    | some (kept, after) =>
      (blankLines (after.rest.length + 1) after).map (fun read => (foldBreak kept read.1, read.2))
    | none => .ok (run, after)

/-- The character that a letter stands for after a backslash. -/
def escaped? : Char → Option Nat
  | '0' => some 0
  | 'a' => some 7
  | 'b' => some 8
  | 't' => some 9
  | '\t' => some 9
  | 'n' => some 10
  | 'v' => some 11
  | 'f' => some 12
  | 'r' => some 13
  | 'e' => some 27
  | ' ' => some 32
  | '"' => some 34
  | '\\' => some 92
  | '/' => some 47
  | 'N' => some 0x85
  | '_' => some 0xa0
  | 'L' => some 0x2028
  | 'P' => some 0x2029
  | _ => none

/-- How many hexadecimal digits follow a letter after a backslash. -/
def escapeWidth? : Char → Option Nat
  | 'x' => some 2
  | 'u' => some 4
  | 'U' => some 8
  | _ => none

def charOfCode (code : Nat) : Except Error Char :=
  if code < 0x110000 then .ok (ofUnit code)
  else if code < 0x80000000 then .error .impossibleValue
  else .error .codeOverflow

/-- What an escape in double quotes stands for, its backslash still ahead. -/
def escape (cursor : Cursor) : Except Error (List Char × Cursor) := do
  let cursor := cursor.step
  let c := cursor.peek
  match escaped? c, escapeWidth? c with
  | some code, _ => return ([Char.ofNat code], cursor.step)
  | none, some width =>
    let digits := cursor.step.rest.take width
    if digits.length = width && digits.all (fun c => (hexDigit? c).isSome) then
      let code := digits.foldl (fun code c => code * 16 + (hexDigit? c).getD 0) 0
      return ([← charOfCode code], cursor.step.skip width)
    else throw .malformed
  | none, none =>
    match cursor.lineBreak? with
    | some (_, after) => blankLines (after.rest.length + 1) after
    | none => throw .malformed

/-- A quoted scalar behind its opening quote, up to and with the closing one. -/
def quotedRest (double : Bool) (steps : Nat) (cursor : Cursor) :
    Except Error (List Char × Cursor) :=
  match steps with
  | 0 => .error .malformed
  | steps + 1 => do
    let plain (c : Char) : Bool := !isBlankOrEnd c && c != '\'' && c != '"' && c != '\\'
    let (run, cursor) := cursor.span plain
    let c := cursor.peek
    if !double && c == '\'' && cursor.look 1 == '\'' then
      let (more, after) ← quotedRest double steps (cursor.skip 2)
      return (run ++ '\'' :: more, after)
    else if c == (if double then '"' else '\'') then return (run, cursor.step)
    else if double && c == '\\' then
      let (chars, cursor) ← cursor.escape
      let (more, after) ← quotedRest double steps cursor
      return (run ++ chars ++ more, after)
    else if c == '\'' || c == '"' || c == '\\' then
      let (more, after) ← quotedRest double steps cursor.step
      return (run ++ c :: more, after)
    else
      let (blanks, cursor) ← cursor.quotedBlanks
      let (more, after) ← quotedRest double steps cursor
      return (run ++ blanks ++ more, after)

def quoted (cursor : Cursor) : Except Error (String × Cursor) :=
  (quotedRest (cursor.peek == '"') (cursor.rest.length + 1) cursor.step).map
    (fun read => (String.ofList read.1, read.2))

/-! ### Block scalars -/

/-- Whether the line breaks at the end of a block scalar are dropped or kept; by default one is. -/
inductive Chomping where
  | strip
  | clip
  | keep
  deriving DecidableEq, Repr

def chomping? : Char → Option Chomping
  | '+' => some .keep
  | '-' => some .strip
  | _ => none

def blockIndicators (cursor : Cursor) : Except Error (Chomping × Option Nat × Cursor) := do
  let (chomping, cursor) := match chomping? cursor.peek with
    | some chomping => (some chomping, cursor.step)
    | none => (none, cursor)
  let (indent, cursor) := match asciiDigit? cursor.peek with
    | some indent => (some indent, cursor.step)
    | none => (none, cursor)
  if indent = some 0 then throw .malformed
  let (chomping, cursor) := match chomping, indent, chomping? cursor.peek with
    | none, some _, some chomping => (some chomping, cursor.step)
    | _, _, _ => (chomping, cursor)
  if !isSpaceOrEnd cursor.peek then throw .malformed
  return (chomping.getD .clip, indent, cursor)

/-- Leading blank lines, and the largest column that their spaces reach. -/
def leadingBlankLines (widest : Nat) (steps : Nat) (cursor : Cursor) : List Char × Nat × Cursor :=
  match steps with
  | 0 => ([], widest, cursor)
  | steps + 1 =>
    let cursor := cursor.skipWhile (· == ' ')
    let widest := max widest cursor.column
    match cursor.lineBreak? with
    | some (kept, after) =>
      let (breaks, widest, after) := leadingBlankLines widest steps after
      (kept :: breaks, widest, after)
    | none => ([], widest, cursor)

def blockBlankLines (indent steps : Nat) (cursor : Cursor) : List Char × Cursor :=
  match steps with
  | 0 => ([], cursor)
  | steps + 1 =>
    let cursor := cursor.skipSpacesTo indent
    match cursor.lineBreak? with
    | some (kept, after) =>
      let (breaks, after) := blockBlankLines indent steps after
      (kept :: breaks, after)
    | none => ([], cursor)

/-- What stands between two lines of a block scalar. A folded one joins lines that both start
with a character other than a blank. -/
def blockJoint (folded : Bool) (kept : Option Char) (breaks : List Char) (first next : Char) :
    List Char :=
  let isText (c : Char) : Bool := c != ' ' && c != '\t'
  if folded && kept == some '\n' && isText first && isText next then
    if breaks.isEmpty then [' '] else []
  else kept.toList

def blockLines (folded : Bool) (chomping : Chomping) (indent : Nat) (steps : Nat)
    (breaks : List Char) (cursor : Cursor) : List Char × Cursor :=
  match steps with
  | 0 => ([], cursor)
  | steps + 1 =>
    let first := cursor.peek
    let (line, cursor) := cursor.span (!isBreakOrEnd ·)
    let (kept, cursor) := match cursor.lineBreak? with
      | some (kept, after) => (some kept, after)
      | none => (none, cursor)
    let (after, cursor) := cursor.blockBlankLines indent (cursor.rest.length + 1)
    if cursor.column == indent && !cursor.atEnd then
      let (more, finish) := blockLines folded chomping indent steps after cursor
      (breaks ++ line ++ blockJoint folded kept after first cursor.peek ++ more, finish)
    else
      (breaks ++ line ++ (if chomping = .strip then [] else kept.toList) ++
        (if chomping = .keep then after else []), cursor)

/-- A block scalar, its mark still ahead, inside a block that is indented by `outer`. -/
def block (cursor : Cursor) (outer : Int) : Except Error (String × Cursor) := do
  let folded := cursor.peek == '>'
  let (chomping, increment, cursor) ← cursor.step.blockIndicators
  let cursor ← cursor.skipRestOfLine
  let least := (max (outer + 1) 1).toNat
  let (breaks, indent, cursor) := match increment with
    | none =>
      let (breaks, widest, after) := cursor.leadingBlankLines 0 (cursor.rest.length + 1)
      (breaks, max least widest, after)
    | some increment =>
      let indent := least + increment - 1
      let (breaks, after) := cursor.blockBlankLines indent (cursor.rest.length + 1)
      (breaks, indent, after)
  if cursor.column == indent && !cursor.atEnd then
    let (chars, cursor) := cursor.blockLines folded chomping indent (cursor.rest.length + 1) breaks
    return (String.ofList chars, cursor)
  else return (String.ofList (if chomping = .keep then breaks else []), cursor)

/-! ### Plain scalars -/

/-- The run of a plain scalar that stands on one line and has no blank. A colon ends it before a
blank, and in a flow collection the marks of the collection end it too. -/
def plainRun (inFlow : Bool) : List Char → List Char
  | [] => []
  | c :: rest =>
    let next := rest.head?.getD endMark
    if isBlankOrEnd c ||
        (c == ':' && (isBlankOrEnd next || (inFlow && ",[]\x7b\x7d".toList.contains next))) ||
        (inFlow && ",?[]\x7b\x7d".toList.contains c) then []
    else c :: plainRun inFlow rest

/-- Line breaks inside a plain scalar; none where a separator of documents follows. -/
def plainBreaks (steps : Nat) (cursor : Cursor) : Option (List Char) × Cursor :=
  match steps with
  | 0 => (none, cursor)
  | steps + 1 =>
    let cursor := cursor.skipWhile (· == ' ')
    match cursor.lineBreak? with
    | none => (some [], cursor)
    | some (kept, after) =>
      if after.atSeparator then (none, after)
      else
        let (breaks, after) := plainBreaks steps after
        (breaks.map (kept :: ·), after)

/-- Blanks behind a run of a plain scalar, folded around line breaks, and whether a line was
broken. There are none where a separator of documents follows. -/
def plainBlanks (cursor : Cursor) : List Char × Bool × Cursor :=
  let (run, after) := cursor.span (· == ' ')
  match after.lineBreak? with
  | none => (run, false, after)
  | some (kept, after) =>
    if after.atSeparator then ([], true, after)
    else
      match plainBreaks (after.rest.length + 1) after with
      | (none, after) => ([], true, after)
      | (some breaks, after) => (foldBreak kept breaks, true, after)

/-- A plain scalar from a run on, with the blanks before the run, and whether its last blanks
broke a line. A comment ends it, and outside a flow collection so does a smaller indentation. -/
def plainFrom (inFlow : Bool) (indent : Int) (steps : Nat) (blanks : List Char) (broken : Bool)
    (cursor : Cursor) : List Char × Bool × Cursor :=
  match steps with
  | 0 => ([], broken, cursor)
  | steps + 1 =>
    if cursor.peek = '#' then ([], broken, cursor)
    else
      let run := plainRun inFlow cursor.rest
      if run.isEmpty then ([], broken, cursor)
      else
        let (after, broken, cursor) := plainBlanks (cursor.skip run.length)
        if after.isEmpty || cursor.peek == '#' ||
            (!inFlow && decide ((cursor.column : Int) < indent)) then
          (blanks ++ run, broken, cursor)
        else
          let (more, broken, cursor) := plainFrom inFlow indent steps after broken cursor
          (blanks ++ run ++ more, broken, cursor)

/-- A plain scalar inside a block that is indented by `outer`. -/
def plain (cursor : Cursor) (inFlow : Bool) (outer : Int) : String × Bool × Cursor :=
  let (chars, broken, after) :=
    plainFrom inFlow (outer + 1) (cursor.rest.length + 1) [] false cursor
  (String.ofList chars, broken, after)

end Cursor
end ToolGraph.Yaml
