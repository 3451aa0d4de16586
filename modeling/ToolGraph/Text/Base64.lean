import ToolGraph.Text.Encoding

/-! Bytes as text in base 64. -/
namespace ToolGraph.Text.Base64

def alphabet : List Char :=
  "ABCDEFGHIJKLMNOPQRSTUVWXYZabcdefghijklmnopqrstuvwxyz0123456789+/".toList

def digit (value : Nat) : Char := alphabet.getD (value % 64) 'A'

def encode : Bytes → List Char
  | [] => []
  | [a] => [digit (a.toNat / 4), digit (a.toNat % 4 * 16), '=', '=']
  | [a, b] =>
    [digit (a.toNat / 4), digit (a.toNat % 4 * 16 + b.toNat / 16), digit (b.toNat % 16 * 4), '=']
  | a :: b :: c :: rest =>
    digit (a.toNat / 4) :: digit (a.toNat % 4 * 16 + b.toNat / 16) ::
      digit (b.toNat % 16 * 4 + c.toNat / 64) :: digit c.toNat :: encode rest

/-- Reads digits and skips what is none. `held` are the digits of the current group, `pads` the
padding that came since the last digit. The text ends when a group is padded to four. -/
def decodeFrom (held : List Nat) (pads : Nat) : List Char → Option Bytes
  | [] => if held.isEmpty then some [] else none
  | c :: rest =>
    if c = '=' then
      if 2 ≤ held.length ∧ 4 ≤ held.length + pads + 1 then
        match held with
        | [a, b] => some [(a * 4 + b / 16).toUInt8]
        | [a, b, c] => some [(a * 4 + b / 16).toUInt8, (b % 16 * 16 + c / 4).toUInt8]
        | _ => some []
      else decodeFrom held (if 2 ≤ held.length then pads + 1 else pads) rest
    else
      match alphabet.idxOf? c with
      | none => decodeFrom held pads rest
      | some value =>
        match held with
        | [a, b, c] =>
          (decodeFrom [] 0 rest).map (fun bytes =>
            (a * 4 + b / 16).toUInt8 :: (b % 16 * 16 + c / 4).toUInt8 ::
              (c % 4 * 64 + value).toUInt8 :: bytes)
        | _ => decodeFrom (held ++ [value]) 0 rest

def decode? (text : List Char) : Option Bytes := decodeFrom [] 0 text

end ToolGraph.Text.Base64
