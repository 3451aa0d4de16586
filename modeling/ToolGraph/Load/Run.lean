import ToolGraph.Load.State

/-! Loading a reference or a text from a world. -/
namespace ToolGraph

inductive Root where
  | reference (text : String)
  | text (content location : String)
  deriving DecidableEq, Repr

structure LoadRequest where
  root : Root
  /-- The tool to start with. It comes before the one that the reference names. -/
  subTool : String
  /-- The directory that relative references are seen from, the current one if empty. -/
  base : String
  settings : LoaderSettings

/-- What came of a load: the world after it, and the most web requests that were open at once. -/
structure LoadOutcome where
  result : Except Error Program
  world : World
  peak : Nat

namespace LoadRequest

def name (request : LoadRequest) : String :=
  match request.root with
  | .reference text => text
  | .text _ location => location

def subToolName (request : LoadRequest) : String :=
  match request.root with
  | .reference text =>
    if request.subTool.isEmpty then (Reference.read text).subTool else request.subTool
  | .text .. => request.subTool

def contextAt (request : LoadRequest) (place : Canonical.Place) : LoadContext :=
  { outlook := ⟨Canonical.location place, place.home⟩
    base := if request.base.isEmpty then place.cwd else request.base.toList
    model := request.settings.defaultModel }

def context (request : LoadRequest) (world : World) : LoadContext :=
  request.contextAt world.place

def patience (request : LoadRequest) : Fetch.Patience :=
  ⟨request.settings.maxRetries.toNat, Binary64.ofInt 1⟩

/-- No time is left before anything is done. -/
def isOver (request : LoadRequest) : Bool := request.settings.timeout.any Binary64.isAtMostZero

/-- The canonical location of the root. A text is at its location as it stands. -/
def rootLocation (request : LoadRequest) (context : LoadContext) : Except Error (List Char) :=
  match request.root with
  | .text _ location => .ok location.toList
  | .reference text =>
    context.outlook.locate (Reference.read text).source.toList context.base

def fetchRoot (request : LoadRequest) (world : World) :
    Except Error (List Char × Fetched) × World :=
  match request.rootLocation (request.context world) with
  | .error error => (.error error, world)
  | .ok location =>
    match request.root with
    | .text content _ => (.ok (location, ⟨location, Text.encode content.toList⟩), world)
    | .reference _ =>
      let (result, world) := Fetch.location request.patience location world
      (result.map (fun fetched => (location, fetched)), world)

end LoadRequest

namespace Load

def openRequests (settings : LoaderSettings) (load : Load) : Nat :=
  min (load.pending.filter Location.isUrl).length settings.maxConcurrency.toNat

def timeUp (request : LoadRequest) : Error :=
  .timeout request.name (request.settings.timeout.getD Binary64.nan)

/-- Fetches what is pending until nothing is. `bound` bounds the number of fetches; a load that needs
more of them has no time left. -/
def drain (request : LoadRequest) (context : LoadContext) :
    (bound : Nat) → (peak : Nat) → Load → World → Except Error Load × Nat × World
  | 0, peak, load, world =>
    (if load.pending.isEmpty then .ok load else .error (timeUp request), peak, world)
  | bound + 1, peak, load, world =>
    match load.pending with
    | [] => (.ok load, peak, world)
    | location :: _ =>
      let peak := max peak (load.openRequests request.settings)
      let (result, world) := Fetch.location request.patience location world
      match load.deliver context location result with
      | .error error => (.error error, peak, world)
      | .ok load => drain request context bound peak load world

/-- The most characters of a location with content: a URL that can be sent, or the path of a file, in
which the first slash may stand twice. -/
def longestLocation (world : World) : Nat :=
  world.files.real.files.keys.foldr (fun path longest => max (path.length + 1) longest)
    Url.maxSentLength

/-- A bound on the number of sources in a world: there are no more locations of that length, as a
character has a code below `2 ^ 21`. -/
def sourceBound (world : World) : Nat := 1 <<< (21 * (longestLocation world + 1))

/-- Takes in the root: the load after it, and the id of the entry tool. A tool that is missing is
reported before the references are looked at. -/
def begin (request : LoadRequest) (context : LoadContext) (location : List Char)
    (fetched : Fetched) : Except Error (Load × String) :=
  match Source.read context.base context.model fetched with
  | .error error => .error error
  | .ok source =>
    match source.select request.subToolName with
    | .error error => .error error
    | .ok entry => (start.accept context location source).map (fun load => (load, entry))

/-- Loads all that a request needs: the load and the id of the entry tool, the most web requests that
were open at once, and the world after it. -/
def complete (request : LoadRequest) (world : World) : Except Error (Load × String) × Nat × World :=
  if request.isOver then (.error (timeUp request), 0, world)
  else
    let context := request.context world
    match request.fetchRoot world with
    | (.error error, later) => (.error error, 1, later)
    | (.ok (location, fetched), later) =>
      match begin request context location fetched with
      | .error error => (.error error, 1, later)
      | .ok (load, entry) =>
        let bound := sourceBound world
        let rootRequests := if Location.isUrl location then 1 else 0
        let (result, peak, later) := drain request context bound rootRequests load later
        (result.map (fun load => (load, entry)), peak, later)

def run (request : LoadRequest) (world : World) : LoadOutcome :=
  let (result, peak, world) := complete request world
  { result := result.map (fun done => done.1.program request.name done.2), world, peak }

end Load
end ToolGraph
