import ToolGraph.Text.Digit
import ToolGraph.Text.Encoding
import ToolGraph.Text.Printable

/-! Texts between quotes, as they stand inside a displayed list or map. -/
namespace ToolGraph.Text

/-- Single quotes, unless the text has one and no double quote. -/
def quoteFor (text : List Char) : Char :=
  if text.contains '\'' && !text.contains '"' then '"' else '\''

/-- What is not printable is shown by its code in the shortest of three widths. -/
def escapeCode (code : Nat) : List Char :=
  if code < 0x100 then '\\' :: 'x' :: hexDigits 2 code
  else if code < 0x10000 then '\\' :: 'u' :: hexDigits 4 code
  else '\\' :: 'U' :: hexDigits 8 code

def escapeChar (quote c : Char) : List Char :=
  if c = quote ∨ c = '\\' then ['\\', c]
  else if c = '\n' then ['\\', 'n']
  else if c = '\r' then ['\\', 'r']
  else if c = '\t' then ['\\', 't']
  else if isPrintable c then [c]
  else escapeCode (codeOf c)

def quote (text : String) : String :=
  let mark := quoteFor text.toList
  String.ofList (mark :: text.toList.flatMap (escapeChar mark) ++ [mark])

/-- Bytes between quotes after a `b`; only ASCII is shown as it is. -/
def quoteBytes (bytes : Bytes) : String :=
  let chars := bytes.map (fun byte => Char.ofNat byte.toNat)
  let mark := quoteFor chars
  let shown (c : Char) : List Char :=
    if c.toNat < 127 then escapeChar mark c else escapeCode c.toNat
  String.ofList ('b' :: mark :: chars.flatMap shown ++ [mark])

end ToolGraph.Text
