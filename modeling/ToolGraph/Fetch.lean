import ToolGraph.World

/-!
Fetching the content of a location. A web request follows redirects; an attempt that fails on the way
or on the server is repeated, with waits in between that double.
-/
namespace ToolGraph

/-- Content, and the canonical location that it was found at. -/
structure Fetched where
  location : List Char
  content : Bytes
  deriving DecidableEq, Repr

namespace Fetch

def maxRedirects : Nat := 20

def isRedirect (status : Int) : Bool := [301, 302, 303, 307, 308].contains status

/-- The outcome of an attempt: the last status with its content, or what went wrong. -/
inductive Outcome where
  | answered (status : Int) (content : Bytes)
  | lost (kind text : String)
  | broken (fault : Fault)
  deriving DecidableEq, Repr

/-- The URL that a redirect leads to, as it is sent. It keeps the fragment of the URL that was
requested where it has none of its own. -/
def redirect (url target : List Char) : Except String (List Char) :=
  match Url.join url target with
  | .error _ => .error ""
  | .ok next =>
    let next := if next.contains '#' then next else next ++ Url.tailAt '#' url
    (Url.sent next).mapError (fun error => s!"Invalid URL in location header: {error.message}.")

/-- Requests a URL in the form in which it is sent and follows at most `left` redirects. -/
def follow : (left : Nat) → List Char → World → Outcome × World
  | left, url, world =>
    let (reply, world) := world.send url
    match reply with
    | .failed kind text => (.lost kind text, world)
    | .tooManyRedirects => (.broken .tooManyRedirects, world)
    | .undecodable => (.broken .undecodable, world)
    | .answer status content none => (.answered status content, world)
    | .answer status content (some target) =>
      if isRedirect status then
        match left, redirect url target with
        | _, .error text => (.lost "RemoteProtocolError" text, world)
        | 0, .ok _ => (.broken .tooManyRedirects, world)
        | left + 1, .ok next => follow left next world
      else (.answered status content, world)

/-- Requests a URL. One that cannot be sent is not requested. -/
def request (url : List Char) (world : World) : Outcome × World :=
  match Url.sent url with
  | .error error => (.broken (.unsendable error), world)
  | .ok url => follow maxRedirects url world

/-- How often and how patiently a URL is tried. -/
structure Patience where
  retries : Nat
  backoff : Binary64

/-- The powers of two with exponents below this one are numbers; the others are beyond all numbers. -/
def exponentLimit : Nat := 1024

/-- The wait after an attempt, the first one being number zero. There is none if its factor is beyond
all numbers. -/
def Patience.delay? (patience : Patience) (attempt : Nat) : Option Binary64 :=
  if attempt < exponentLimit then
    some (patience.backoff.mul (Binary64.ofInt (Int.ofNat (1 <<< attempt))))
  else none

/-- What becomes of a wait whose factor is beyond all numbers. -/
def endlessWait : Fault := .transport "OverflowError" "int too large to convert to float"

/-- Whether another attempt may help. -/
def Outcome.isPassing : Outcome → Bool
  | .answered status _ => decide (500 ≤ status)
  | .lost .. => true
  | .broken _ => false

def Outcome.conclude (url : List Char) : Outcome → Except Error Bytes
  | .answered status content =>
    if 400 ≤ status then .error (.source (String.ofList url) (.status status)) else .ok content
  | .lost kind text => .error (.source (String.ofList url) (.transport kind text))
  | .broken fault => .error (.bare fault)

/-- Tries a URL, `left` times more after this attempt. -/
def attempt (patience : Patience) (url : List Char) :
    (left number : Nat) → World → Except Error Bytes × World
  | 0, _, world =>
    let (outcome, world) := request url world
    (outcome.conclude url, world)
  | left + 1, number, world =>
    let (outcome, world) := request url world
    if outcome.isPassing then
      match patience.delay? number with
      | some seconds => attempt patience url left (number + 1) (world.wait seconds)
      | none => (.error (.bare endlessWait), world)
    else (outcome.conclude url, world)

/-- The content of a URL, from the cache if it is there. What is fetched is stored. -/
def web (patience : Patience) (url : List Char) (world : World) :
    Except Error Bytes × World :=
  match world.cache.bind (·.get? (String.ofList url)) with
  | some content => (.ok content, world)
  | none =>
    match attempt patience url patience.retries 0 world with
    | (.error error, world) => (.error error, world)
    | (.ok content, world) =>
      (.ok content,
        { world with cache := world.cache.map (·.set (String.ofList url) content) })

def file (path : List Char) (world : World) : Except Error Bytes × World :=
  if path.contains '\x00' then (.error (.bare .nullInPath), world)
  else
    let (result, world) := world.read path
    (result.mapError (fun fault => .source (String.ofList path) (.file fault)), world)

def location (patience : Patience) (location : List Char) (world : World) :
    Except Error Fetched × World :=
  match world.canonical location with
  | .error error => (.error error, world)
  | .ok canonical =>
    let (result, world) :=
      if Location.isUrl canonical then web patience canonical world else file canonical world
    (result.map (fun content => ⟨canonical, content⟩), world)

end Fetch
end ToolGraph
