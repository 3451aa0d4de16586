import ToolGraph.Text.Blank
import ToolGraph.Text.Cut
import ToolGraph.Text.Lower
import ToolGraph.Url.Address

/-! The five components of a URL. -/
namespace ToolGraph

/-- `<scheme>://<authority><path>?<query>#<fragment>`; a component that is absent is empty. -/
structure Url where
  scheme : List Char
  authority : List Char
  path : List Char
  query : List Char
  fragment : List Char
  deriving DecidableEq, Repr

/-- Why a text is refused as a URL. -/
inductive UrlError where
  | unbalancedBrackets
  | badAddress
  | ambiguousAuthority
  deriving DecidableEq, Repr

namespace Url
open Text

def isSchemeChar (c : Char) : Bool := c.isAlphanum || c == '+' || c == '-' || c == '.'

def cutScheme? (text : List Char) : Option (List Char × List Char) :=
  match cutAt? ':' text with
  | some (scheme, rest) =>
    if scheme.head?.any Char.isAlpha && scheme.all isSchemeChar then
      some (scheme.map Char.toLower, rest)
    else none
  | none => none

/-- Characters whose compatibility form holds one of the marks that delimit an authority. -/
def ambiguousCodes : List Nat :=
  [0x2047, 0x2048, 0x2049, 0x2100, 0x2101, 0x2105, 0x2106, 0x2a74, 0xfe13, 0xfe16, 0xfe55,
    0xfe56, 0xfe5f, 0xfe6b, 0xff03, 0xff0f, 0xff1a, 0xff1f, 0xff20]

/-- Brackets come in pairs around an address, and no character can be taken for a delimiter. -/
def checkAuthority (authority : List Char) : Except UrlError Unit :=
  if authority.contains '[' != authority.contains ']' then .error .unbalancedBrackets
  else if authority.contains '[' &&
      !isBracketAddress (cutAt ']' (cutAt '[' authority).2).1 then .error .badAddress
  else if authority.any (fun c => ambiguousCodes.contains c.toNat) then .error .ambiguousAuthority
  else .ok ()

def endsAuthority (c : Char) : Bool := c == '/' || c == '?' || c == '#'

def cutAuthority (text : List Char) : List Char × List Char :=
  match text with
  | '/' :: '/' :: rest => (rest.takeWhile (!endsAuthority ·), rest.dropWhile (!endsAuthority ·))
  | _ => ([], text)

/-- Control characters and spaces before a URL are skipped; tabs and line ends inside vanish. -/
def clean (text : List Char) : List Char :=
  (text.dropWhile (fun c => decide (c.toNat ≤ 32))).filter
    (fun c => c != '\t' && c != '\r' && c != '\n')

/-- Splits a URL or a relative reference; without a scheme of its own it gets `scheme`. -/
def split (text : List Char) (scheme : List Char) : Except UrlError Url := do
  let text := clean text
  let (scheme, rest) := (cutScheme? text).getD (scheme, text)
  let (authority, rest) := cutAuthority rest
  checkAuthority authority
  let (rest, fragment) := cutAt '#' rest
  let (path, query) := cutAt '?' rest
  return { scheme, authority, path, query, fragment }

/-- The text of a URL. Empty components leave no mark behind, but an authority is written, even
an empty one, where there is a scheme or the path could be taken for one. -/
def toText (url : Url) : List Char :=
  let path :=
    if !url.authority.isEmpty || !url.scheme.isEmpty || startsWith "//" url.path then
      '/' :: '/' :: url.authority ++
        (if url.path.isEmpty || startsWith "/" url.path then url.path else '/' :: url.path)
    else url.path
  (if url.scheme.isEmpty then path else url.scheme ++ ':' :: path) ++
    (if url.query.isEmpty then [] else '?' :: url.query) ++
    (if url.fragment.isEmpty then [] else '#' :: url.fragment)

end Url
end ToolGraph
