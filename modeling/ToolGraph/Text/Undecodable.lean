import ToolGraph.Text.Digit
import ToolGraph.Text.Encoding

/-! Where bytes stop being a text in UTF-8, and why. -/
namespace ToolGraph.Text

/-- What is wrong at the first byte of a character: it starts none, a byte after it does not continue
it, or the bytes end inside it. -/
inductive EncodingIssue where
  | start
  | continuation
  | ending
  deriving DecidableEq, Repr

/-- The first bytes that make no character, and how many come before them. -/
structure EncodingFault where
  position : Nat
  bytes : Bytes
  issue : EncodingIssue
  deriving DecidableEq, Repr

def EncodingIssue.text : EncodingIssue → String
  | .start => "invalid start byte"
  | .continuation => "invalid continuation byte"
  | .ending => "unexpected end of data"

namespace EncodingFault

/-- How many bytes a character has that starts with a byte. -/
def width? (first : UInt8) : Option Nat :=
  if first < 0x80 then some 1
  else if first < 0xc2 then none
  else if first < 0xe0 then some 2
  else if first < 0xf0 then some 3
  else if first < 0xf5 then some 4
  else none

/-- The second byte of a character keeps it in its shortest form, off the surrogates and within the
range of characters. -/
def fitsSecond (first second : UInt8) : Bool :=
  if first = 0xe0 then decide (0xa0 ≤ second) && decide (second < 0xc0)
  else if first = 0xed then decide (0x80 ≤ second) && decide (second < 0xa0)
  else if first = 0xf0 then decide (0x90 ≤ second) && decide (second < 0xc0)
  else if first = 0xf4 then decide (0x80 ≤ second) && decide (second < 0x90)
  else (continuation? second).isSome

def fitting (first : UInt8) : Bytes → Nat
  | [] => 0
  | second :: rest =>
    if fitsSecond first second then 1 + (rest.takeWhile (fun byte => (continuation? byte).isSome)).length
    else 0

/-- The first fault in bytes with `position` bytes before them. `steps` bounds the number of
characters. -/
def find? : (steps position : Nat) → Bytes → Option EncodingFault
  | 0, _, _ => none
  | _ + 1, _, [] => none
  | steps + 1, position, first :: rest =>
    match width? first with
    | none => some ⟨position, [first], .start⟩
    | some width =>
      let good := fitting first (rest.take (width - 1))
      if good + 1 = width then find? steps (position + width) (rest.drop good)
      else
        some ⟨position, (first :: rest).take (good + 1),
          if rest.length = good then .ending else .continuation⟩

def ofBytes (bytes : Bytes) : EncodingFault :=
  (find? bytes.length 0 bytes).getD ⟨0, [], .ending⟩

def text (fault : EncodingFault) : String :=
  let place :=
    match fault.bytes with
    | [byte] => s!"byte 0x{String.ofList (hexDigits 2 byte.toNat)} in position {fault.position}"
    | bytes => s!"bytes in position {fault.position}-{fault.position + bytes.length - 1}"
  s!"'utf-8' codec can't decode {place}: {fault.issue.text}"

end EncodingFault
end ToolGraph.Text
