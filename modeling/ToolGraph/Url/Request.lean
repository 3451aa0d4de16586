import ToolGraph.Number.Literal
import ToolGraph.Text.Quoted
import ToolGraph.Url.Join

/-!
The form in which a URL is sent: dot segments are resolved, the host is in lower case, the number
of the service is left out where the scheme implies it, and what may not stand in a component is
escaped.
-/
namespace ToolGraph

/-- Why a URL cannot be sent. -/
inductive SendError where
  | tooLong
  | control (c : Char) (position : Nat)
  | dottedAddress (host : List Char)
  | colonAddress (host : List Char)
  | service (text : List Char)
  deriving DecidableEq, Repr

namespace SendError

def message : SendError → String
  | tooLong => "URL too long"
  | control c position =>
    s!"Invalid non-printable ASCII character in URL, {Text.quote c.toString} at position {position}."
  | dottedAddress host => "Invalid IPv4 address: " ++ Text.quote (String.ofList host)
  | colonAddress host => "Invalid IPv6 address: " ++ Text.quote (String.ofList host)
  | service text => "Invalid port: " ++ Text.quote (String.ofList text)

end SendError

namespace Url
open Text

def maxSentLength : Nat := 65536

def isControl (c : Char) : Bool := decide (c.toNat < 32) || c.toNat == 127

def checkCharacters (text : List Char) : Except SendError Unit :=
  if maxSentLength < text.length then .error .tooLong
  else
    match text.zipIdx.find? (fun place => isControl place.1) with
    | some (c, position) => .error (.control c position)
    | none => .ok ()

def escapeByte (byte : UInt8) : List Char :=
  '%' :: (hexDigits 2 byte.toNat).map Char.toUpper

/-- Visible ASCII characters other than `marks`, which a component keeps. -/
def keeps (marks : List Char) (c : Char) : Bool :=
  decide (32 < c.toNat) && decide (c.toNat < 127) && !marks.contains c

def escape (marks : List Char) (text : List Char) : List Char :=
  text.flatMap (fun c =>
    if keeps marks c then [c] else (Text.encode [c]).flatMap escapeByte)

def queryMarks : List Char := ['"', '#', '<', '>']

def pathMarks : List Char := queryMarks ++ ['?', '`', '\x7b', '\x7d']

def fragmentMarks : List Char := ['"', '<', '>', '`']

/-- Resolves a segment of a path: `.` goes, and `..` takes the segment before it along. -/
def sendSegment (done : List (List Char)) (segment : List Char) : List (List Char) :=
  if segment = ['.'] then done
  else if segment = ['.', '.'] then (if done = [[]] then done else done.tail)
  else segment :: done

def sendPath (path : List Char) : List Char :=
  joinWith ['/'] ((splitAt '/' path).foldl sendSegment []).reverse

def userMarks : List Char := pathMarks ++ ['/', ';', '=', '@', '[', '\\', ']', '^', '|']

def hostMarks : List Char := ['#', '/', ':', '<', '>', '?', '@', '[', ']', '^']

/-- Four runs of digits between points. -/
def looksDotted (host : List Char) : Bool :=
  let parts := splitAt '.' host
  parts.length == 4 && parts.all (fun part => !part.isEmpty && part.all isAsciiDigit)

/-- The host of an authority without its user, and what follows. -/
def cutHost (place : List Char) : List Char × List Char :=
  match place, cutAtLast? ']' place with
  | '[' :: _, some (inner, rest) => (inner ++ [']'], rest)
  | _, _ => (place.takeWhile (· != ':'), place.dropWhile (· != ':'))

def sendHost (host : List Char) : Except SendError (List Char) :=
  match host with
  | '[' :: _ =>
    let address := host.tail.dropLast
    if address.head? != some 'v' && isBracketAddress address then .ok host
    else .error (.colonAddress host)
  | _ =>
    if looksDotted host then
      if isDottedAddress host then .ok host else .error (.dottedAddress host)
    else .ok (escape hostMarks (host.map Char.toLower))

def usualService? (scheme : List Char) : Option Int :=
  if scheme = "https".toList then some 443
  else if scheme = "http".toList then some 80
  else none

/-- The text after a host as it is sent: the number of the service, unless it is the usual one. -/
def sendService (scheme text : List Char) : Except SendError (List Char) :=
  let text := if text.head? == some ':' then text.tail else text
  if text.isEmpty then .ok []
  else
    match Number.readInt? text with
    | none => .error (.service text)
    | some number =>
      .ok (if usualService? scheme = some number then [] else ':' :: (toString number).toList)

def sendAuthority (scheme authority : List Char) : Except SendError (List Char) := do
  let (user, place) :=
    match cutAtLast? '@' authority with
    | some (user, place) => (escape userMarks user ++ ['@'], place)
    | none => ([], authority)
  let (host, rest) := cutHost place
  let host ← sendHost host
  let service ← sendService scheme rest
  return user ++ host ++ service

/-- The text after a mark that stands in the text, with the mark; empty where there is none. -/
def tailAt (mark : Char) (text : List Char) : List Char := text.dropWhile (· != mark)

def sent (url : List Char) : Except SendError (List Char) := do
  checkCharacters url
  match cutAt? ':' url with
  | none => return url
  | some (scheme, rest) =>
    let (authority, rest) := cutAuthority rest
    let authority ← sendAuthority scheme authority
    let fragment := tailAt '#' rest
    let rest := rest.takeWhile (· != '#')
    let query := tailAt '?' rest
    let path := rest.takeWhile (· != '?')
    return scheme ++ "://".toList ++ authority ++ escape pathMarks (sendPath path) ++
      escape queryMarks query ++ escape fragmentMarks fragment

end Url
end ToolGraph
