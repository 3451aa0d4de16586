import ToolGraph.Text.Cut
import ToolGraph.Text.Digit

/-! Host addresses that a URL writes between brackets. -/
namespace ToolGraph.Url
open Text

def isOctet (part : List Char) : Bool :=
  !part.isEmpty && part.all isAsciiDigit && decide (part.length ≤ 3) &&
    (part == ['0'] || part.head? != some '0') &&
    decide (part.foldl (fun value c => value * 10 + (c.toNat - 48)) 0 ≤ 255)

def isDottedAddress (text : List Char) : Bool :=
  let parts := splitAt '.' text
  parts.length == 4 && parts.all isOctet

def isHextet (part : List Char) : Bool :=
  !part.isEmpty && decide (part.length ≤ 4) && part.all (fun c => (hexDigit? c).isSome)

def addressGroups? (text : List Char) : Option (List (List Char)) :=
  let groups := splitAt ':' text
  match groups.getLast? with
  | some tail =>
    if tail.contains '.' then
      if isDottedAddress tail && decide (3 ≤ groups.length) then
        some (groups.dropLast ++ [['0'], ['0']])
      else none
    else if 3 ≤ groups.length then some groups else none
  | none => none

def isColonAddress (text : List Char) : Bool :=
  match addressGroups? text with
  | none => false
  | some groups =>
    let inner := groups.tail.dropLast
    if decide (9 < groups.length) then false
    else
      match inner.filter List.isEmpty with
      | [] => groups.length == 8 && groups.all isHextet
      | [_] =>
        let high := inner.takeWhile (!·.isEmpty)
        let low := (inner.dropWhile (!·.isEmpty)).tail
        let first := groups.head?.getD []
        let last := groups.getLast?.getD []
        let highGroups := if first.isEmpty then [] else first :: high
        let lowGroups := if last.isEmpty then [] else low ++ [last]
        !(first.isEmpty && !high.isEmpty) && !(last.isEmpty && !low.isEmpty) &&
          decide (highGroups.length + lowGroups.length < 8) &&
          highGroups.all isHextet && lowGroups.all isHextet
      | _ => false

/-- The text is an address that stands between brackets: one with colons, with a zone after a
percent sign or without, or a future form `v<hex>.<text>`. -/
def isBracketAddress (text : List Char) : Bool :=
  match text with
  | 'v' :: rest =>
    match cutAt? '.' rest with
    | some (version, name) =>
      !version.isEmpty && version.all (fun c => (hexDigit? c).isSome) &&
        !name.isEmpty && !name.contains '\n'
    | none => false
  | _ =>
    match cutAt? '%' text with
    | some (address, zone) => !zone.isEmpty && !zone.contains '%' && isColonAddress address
    | none => isColonAddress text

end ToolGraph.Url
