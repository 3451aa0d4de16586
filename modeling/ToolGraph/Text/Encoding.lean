/-! Texts as bytes, in the Unicode encodings. -/
namespace ToolGraph

abbrev Bytes := List UInt8

namespace Text

inductive Encoding where
  | utf8
  | utf16 (bigEndian : Bool)
  | utf32 (bigEndian : Bool)
  deriving DecidableEq, Repr

def utf8Char (c : Char) : Bytes :=
  let code := c.toNat
  if code < 0x80 then [code.toUInt8]
  else if code < 0x800 then [(0xc0 + code / 0x40).toUInt8, (0x80 + code % 0x40).toUInt8]
  else if code < 0x10000 then
    [(0xe0 + code / 0x1000).toUInt8, (0x80 + code / 0x40 % 0x40).toUInt8,
      (0x80 + code % 0x40).toUInt8]
  else
    [(0xf0 + code / 0x40000).toUInt8, (0x80 + code / 0x1000 % 0x40).toUInt8,
      (0x80 + code / 0x40 % 0x40).toUInt8, (0x80 + code % 0x40).toUInt8]

def encode (text : List Char) : Bytes := text.flatMap utf8Char

def continuation? (byte : UInt8) : Option Nat :=
  if 0x80 ≤ byte ∧ byte < 0xc0 then some (byte.toNat - 0x80) else none

/-! ### Surrogates

A surrogate is no character, yet one that stands alone can be part of a text. The last 2048 private
characters are set aside for surrogates, one for each, and stand for nothing else: no text has them as
characters of its own. -/

/-- The first character that is set aside. -/
def firstSurrogate : Nat := 0x10f800

/-- The character that is set aside for a surrogate. -/
def ofSurrogate (code : Nat) : Char := Char.ofNat (firstSurrogate + (code - 0xd800))

def isSurrogate (c : Char) : Bool := decide (firstSurrogate ≤ c.toNat)

/-- The code of a character, which may be set aside for a surrogate. -/
def codeOf (c : Char) : Nat :=
  if isSurrogate c then 0xd800 + (c.toNat - firstSurrogate) else c.toNat

def isEncodable (text : String) : Bool := text.toList.all (!isSurrogate ·)

/-- The character of a code. A surrogate has one where surrogates pass. -/
def charOf? (surrogates : Bool) (code : Nat) : Option Char :=
  if code.isValidChar then some (Char.ofNat code)
  else if surrogates && decide (0xd800 ≤ code) && decide (code < 0xe000) then
    some (ofSurrogate code)
  else none

/-! ### Decoding -/

/-- Reads UTF-8 in which every character has its shortest form. -/
def decodeUtf8? (surrogates : Bool) : Bytes → Option (List Char)
  | [] => some []
  | a :: rest =>
    if a < 0x80 then (decodeUtf8? surrogates rest).map (Char.ofNat a.toNat :: ·)
    else if a < 0xc2 then none
    else
      match rest with
      | [] => none
      | b :: rest =>
        match continuation? b with
        | none => none
        | some b =>
          if a < 0xe0 then
            (decodeUtf8? surrogates rest).map (Char.ofNat ((a.toNat - 0xc0) * 0x40 + b) :: ·)
          else
            match rest with
            | [] => none
            | c :: rest =>
              match continuation? c with
              | none => none
              | some c =>
                if a < 0xf0 then
                  let code := ((a.toNat - 0xe0) * 0x40 + b) * 0x40 + c
                  if code < 0x800 then none
                  else
                    match charOf? surrogates code with
                    | none => none
                    | some char => (decodeUtf8? surrogates rest).map (char :: ·)
                else
                  match rest with
                  | [] => none
                  | d :: rest =>
                    match continuation? d with
                    | none => none
                    | some d =>
                      let code := (((a.toNat - 0xf0) * 0x40 + b) * 0x40 + c) * 0x40 + d
                      if code < 0x10000 ∨ 0xf5 ≤ a then none
                      else
                        match charOf? false code with
                        | none => none
                        | some char => (decodeUtf8? surrogates rest).map (char :: ·)

/-- The strict reading of UTF-8 text. -/
def decode? (bytes : Bytes) : Option (List Char) := decodeUtf8? false bytes

def units16? (bigEndian : Bool) : Bytes → Option (List Nat)
  | [] => some []
  | [_] => none
  | a :: b :: rest =>
    (units16? bigEndian rest).map
      ((if bigEndian then a.toNat * 0x100 + b.toNat else b.toNat * 0x100 + a.toNat) :: ·)

/-- The character of a unit of sixteen bits, or of a whole code. -/
def ofUnit (unit : Nat) : Char :=
  if 0xd800 ≤ unit ∧ unit < 0xe000 then ofSurrogate unit else Char.ofNat unit

/-- The characters of units of sixteen bits. Two surrogates make one character. -/
def ofUnits16 : List Nat → List Char
  | [] => []
  | [unit] => [ofUnit unit]
  | high :: low :: rest =>
    if 0xd800 ≤ high ∧ high < 0xdc00 ∧ 0xdc00 ≤ low ∧ low < 0xe000 then
      Char.ofNat (0x10000 + (high - 0xd800) * 0x400 + (low - 0xdc00)) :: ofUnits16 rest
    else ofUnit high :: ofUnits16 (low :: rest)

def decodeUtf32? (bigEndian : Bool) : Bytes → Option (List Char)
  | [] => some []
  | a :: b :: c :: d :: rest =>
    let word (a b c d : UInt8) : Nat := ((a.toNat * 0x100 + b.toNat) * 0x100 + c.toNat) * 0x100 + d.toNat
    match charOf? true (if bigEndian then word a b c d else word d c b a) with
    | some char => (decodeUtf32? bigEndian rest).map (char :: ·)
    | none => none
  | _ => none

/-- The encoding that the first bytes of a JSON text show, and the text without its byte order
mark. The first two characters of such a text are ASCII, so zeros tell the width. -/
def detect : Bytes → Encoding × Bytes
  | 0 :: 0 :: 0xfe :: 0xff :: rest => (.utf32 true, rest)
  | 0xff :: 0xfe :: 0 :: 0 :: rest => (.utf32 false, rest)
  | 0xfe :: 0xff :: rest => (.utf16 true, rest)
  | 0xff :: 0xfe :: rest => (.utf16 false, rest)
  | 0xef :: 0xbb :: 0xbf :: rest => (.utf8, rest)
  | a :: b :: c :: d :: rest =>
    let bytes := a :: b :: c :: d :: rest
    if a = 0 then (if b = 0 then .utf32 true else .utf16 true, bytes)
    else if b = 0 then (if c = 0 ∧ d = 0 then .utf32 false else .utf16 false, bytes)
    else (.utf8, bytes)
  | [a, b] =>
    (if a = 0 then .utf16 true else if b = 0 then .utf16 false else .utf8, [a, b])
  | bytes => (.utf8, bytes)

/-- Reads a text in the encoding that it shows. -/
def decodeDetected? (bytes : Bytes) : Option (List Char) :=
  match detect bytes with
  | (.utf8, rest) => decodeUtf8? true rest
  | (.utf16 bigEndian, rest) => (units16? bigEndian rest).map ofUnits16
  | (.utf32 bigEndian, rest) => decodeUtf32? bigEndian rest

end Text
end ToolGraph
