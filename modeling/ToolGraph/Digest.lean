import ToolGraph.Text.Digit
import ToolGraph.Text.Encoding

/-! The SHA-256 digest of bytes. -/
namespace ToolGraph.Digest

def roundConstants : List UInt32 := [
  0x428a2f98, 0x71374491, 0xb5c0fbcf, 0xe9b5dba5, 0x3956c25b, 0x59f111f1, 0x923f82a4, 0xab1c5ed5,
  0xd807aa98, 0x12835b01, 0x243185be, 0x550c7dc3, 0x72be5d74, 0x80deb1fe, 0x9bdc06a7, 0xc19bf174,
  0xe49b69c1, 0xefbe4786, 0x0fc19dc6, 0x240ca1cc, 0x2de92c6f, 0x4a7484aa, 0x5cb0a9dc, 0x76f988da,
  0x983e5152, 0xa831c66d, 0xb00327c8, 0xbf597fc7, 0xc6e00bf3, 0xd5a79147, 0x06ca6351, 0x14292967,
  0x27b70a85, 0x2e1b2138, 0x4d2c6dfc, 0x53380d13, 0x650a7354, 0x766a0abb, 0x81c2c92e, 0x92722c85,
  0xa2bfe8a1, 0xa81a664b, 0xc24b8b70, 0xc76c51a3, 0xd192e819, 0xd6990624, 0xf40e3585, 0x106aa070,
  0x19a4c116, 0x1e376c08, 0x2748774c, 0x34b0bcb5, 0x391c0cb3, 0x4ed8aa4a, 0x5b9cca4f, 0x682e6ff3,
  0x748f82ee, 0x78a5636f, 0x84c87814, 0x8cc70208, 0x90befffa, 0xa4506ceb, 0xbef9a3f7, 0xc67178f2]

/-- The eight words that are carried from block to block. -/
structure Words where
  a : UInt32
  b : UInt32
  c : UInt32
  d : UInt32
  e : UInt32
  f : UInt32
  g : UInt32
  h : UInt32

def Words.start : Words :=
  ⟨0x6a09e667, 0xbb67ae85, 0x3c6ef372, 0xa54ff53a, 0x510e527f, 0x9b05688c, 0x1f83d9ab, 0x5be0cd19⟩

def Words.add (x y : Words) : Words :=
  ⟨x.a + y.a, x.b + y.b, x.c + y.c, x.d + y.d, x.e + y.e, x.f + y.f, x.g + y.g, x.h + y.h⟩

def Words.toList (x : Words) : List UInt32 := [x.a, x.b, x.c, x.d, x.e, x.f, x.g, x.h]

def rotate (word amount : UInt32) : UInt32 := (word >>> amount) ||| (word <<< (32 - amount))

/-- The word that follows sixteen others, the last of them first. -/
def nextWord (latest : List UInt32) : UInt32 :=
  let at' (position : Nat) : UInt32 := latest[position]?.getD 0
  let low := at' 14
  let high := at' 1
  (rotate high 17 ^^^ rotate high 19 ^^^ (high >>> 10)) + at' 6 +
    (rotate low 7 ^^^ rotate low 18 ^^^ (low >>> 3)) + at' 15

/-- Adds `count` words to a schedule, which is reversed. -/
def extend : (count : Nat) → List UInt32 → List UInt32
  | 0, schedule => schedule
  | count + 1, schedule => extend count (nextWord schedule :: schedule)

def round (x : Words) (input : UInt32 × UInt32) : Words :=
  let sum := rotate x.e 6 ^^^ rotate x.e 11 ^^^ rotate x.e 25
  let choice := (x.e &&& x.f) ^^^ ((~~~ x.e) &&& x.g)
  let first := x.h + sum + choice + input.1 + input.2
  let sum := rotate x.a 2 ^^^ rotate x.a 13 ^^^ rotate x.a 22
  let majority := (x.a &&& x.b) ^^^ (x.a &&& x.c) ^^^ (x.b &&& x.c)
  ⟨first + (sum + majority), x.a, x.b, x.c, x.d + first, x.e, x.f, x.g⟩

def words : Bytes → List UInt32
  | a :: b :: c :: d :: rest =>
    (a.toUInt32 <<< 24 ||| b.toUInt32 <<< 16 ||| c.toUInt32 <<< 8 ||| d.toUInt32) :: words rest
  | _ => []

def absorb (x : Words) (block : List UInt32) : Words :=
  let schedule := (extend 48 block.reverse).reverse
  x.add ((roundConstants.zip schedule).foldl round x)

/-- The lowest `count` bytes of a number, the highest first. -/
def numberBytes : (count : Nat) → Nat → Bytes
  | 0, _ => []
  | count + 1, value => numberBytes count (value / 256) ++ [UInt8.ofNat (value % 256)]

/-- The bytes with their padding: a one, zeros, and the length in bits. -/
def pad (bytes : Bytes) : Bytes :=
  let zeros := (119 - bytes.length % 64) % 64
  bytes ++ [0x80] ++ List.replicate zeros 0 ++ numberBytes 8 (8 * bytes.length)

/-- Takes in all words, block by block; `count` bounds the number of blocks. -/
def absorbAll : (count : Nat) → Words → List UInt32 → Words
  | 0, x, _ => x
  | count + 1, x, input =>
    if input.isEmpty then x else absorbAll count (absorb x (input.take 16)) (input.drop 16)

/-- The digest in lower-case hexadecimal digits. -/
def hex (bytes : Bytes) : String :=
  let input := words (pad bytes)
  String.ofList ((absorbAll input.length .start input).toList.flatMap (fun word =>
    Text.hexDigits 8 word.toNat))

def ofText (text : String) : String := hex (Text.encode text.toList)

end ToolGraph.Digest
