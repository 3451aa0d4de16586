import ToolGraph.Load.Destination
import ToolGraph.Load.Source

/-!
A load in progress. Every source is fetched at most once; a reference waits until the source that it
names is read, but not for the references of that source. Contents may be delivered in any order, and
the first failure ends the load.
-/
namespace ToolGraph

structure Waiter where
  /-- The source that is waited for, and the tool in it. -/
  location : List Char
  subTool : String
  /-- The location of the source of the tool. -/
  origin : List Char
  tool : String
  reference : String
  deriving DecidableEq, Repr

structure Load where
  /-- The tools so far by id. -/
  tools : Entries String Tool
  /-- The ids that the references of each tool lead to. -/
  mappings : Entries String (Entries String String)
  /-- The sources by canonical location. One that is still to be delivered is none. -/
  sources : Entries (List Char) (Option Source)
  waiters : List Waiter
  /-- The tool and the reference that first led to a source. -/
  referrers : Entries (List Char) (String × String)

structure LoadContext where
  outlook : Outlook
  /-- The directory for sources without one of their own. -/
  base : List Char
  model : String

namespace Load

def start : Load := ⟨[], [], [], [], []⟩

/-- The locations that are still to be delivered, in the order in which they came up. -/
def pending (load : Load) : List (List Char) :=
  Entries.keys (load.sources.filter (·.2.isNone))

/-! ### Failures -/

def originOf (load : Load) (tool : String) : List Char :=
  match load.tools.get? tool with
  | some tool => tool.origin.location.toList
  | none => []

/-- Names the references that led from the root to `location`, the last one innermost. A source is
passed once, which bounds their number. -/
def traceBack (load : Load) : (bound : Nat) → (seen : List (List Char)) → (location : List Char) →
    Error → Error
  | 0, _, _, error => error
  | bound + 1, seen, location, error =>
    match load.referrers.get? location with
    | none => error
    | some (tool, reference) =>
      let error := Error.resolution tool reference error
      let location := load.originOf tool
      if seen.contains location then error
      else traceBack load bound (location :: seen) location error

/-- A failure in the references of the source at `location`. -/
def failure (load : Load) (location : List Char) (error : Error) : Error :=
  match error with
  | .bare fault => .bare fault
  | error => load.traceBack (load.referrers.length + 1) [location] location error

def waiterFailure (load : Load) (waiter : Waiter) (error : Error) : Error :=
  load.failure waiter.origin (error.onReference waiter.tool waiter.reference)

/-! ### References -/

/-- Records the id that a reference leads to. -/
def link (load : Load) (tool reference target : String) : Load :=
  { load with
    mappings :=
      load.mappings.put tool (((load.mappings.get? tool).getD []).put reference target) }

def linkSelected (load : Load) (source : Source) (subTool tool reference : String) :
    Except Error Load :=
  match source.select subTool with
  | .ok target => .ok (load.link tool reference target)
  | .error error => .error (error.onReference tool reference)

/-- Goes after one reference of a tool. A source that is not read yet is waited for. -/
def follow (context : LoadContext) (origin : List Char) (tool : Tool) (reference : String)
    (load : Load) : Load × Option Error :=
  match Destination.find context.outlook tool reference with
  | .error error => (load, some error)
  | .ok (.sibling id) => (load.link tool.id reference id, none)
  | .ok (.builtin target) =>
    ({ load with tools := load.tools.putNew target.id target }.link tool.id reference target.id,
      none)
  | .ok (.source location subTool) =>
    let load :=
      { load with referrers := load.referrers.putNew location (tool.id, reference) }
    match load.sources.get? location with
    | some (some source) =>
      match load.linkSelected source subTool tool.id reference with
      | .ok load => (load, none)
      | .error error => (load, some error)
    | _ =>
      ({ load with
          sources := load.sources.putNew location none
          waiters := load.waiters ++ [⟨location, subTool, origin, tool.id, reference⟩] },
        none)

/-- Goes after references one by one. All of them are looked at; the first failure is kept. -/
def followAll (context : LoadContext) (origin : List Char) :
    List (Tool × String) → Load → Load × Option Error
  | [], load => (load, none)
  | (tool, reference) :: rest, load =>
    let (load, first) := follow context origin tool reference load
    let (load, later) := followAll context origin rest load
    (load, first.orElse (fun _ => later))

/-- The references of a source that are to be resolved, each with its tool. Where tools of the same
ids came before, theirs count. -/
def references (load : Load) (source : Source) : List (Tool × String) :=
  if source.linked || source.tools.all (·.unresolved.isEmpty) then []
  else
    (source.tools.filterMap (fun tool => load.tools.get? tool.id)).flatMap (fun tool =>
      tool.unresolved.map (fun reference => (tool, reference)))

def destinations (context : LoadContext) (load : Load) (source : Source) : List (List Char) :=
  (load.references source).filterMap (fun reference =>
    match Destination.find context.outlook reference.1 reference.2 with
    | .ok (.source location _) => some location
    | _ => none)

def followSource (context : LoadContext) (source : Source) (load : Load) : Load × Option Error :=
  let (load, error) := followAll context source.location (load.references source) load
  (load, error.map (load.failure source.location))

/-! ### Deliveries -/

def addTools (load : Load) (source : Source) : Load :=
  { load with
    tools := source.tools.foldl (fun tools tool => tools.putNew tool.id tool) load.tools }

/-- Gives a source to the references that wait for it. The first failure is kept, with its
reference. -/
def resume (source : Source) : List Waiter → Load → Load × Option (Waiter × Error)
  | [], load => (load, none)
  | waiter :: rest, load =>
    match load.linkSelected source waiter.subTool waiter.tool waiter.reference with
    | .ok load => resume source rest load
    | .error error => (load, some (waiter, error))

def accept (context : LoadContext) (location : List Char) (source : Source) (load : Load) :
    Except Error Load :=
  let (waiting, others) := load.waiters.partition (·.location == location)
  let load :=
    { load.addTools source with sources := load.sources.put location (some source), waiters := others }
  let (load, failed) := resume source waiting load
  let (load, error) := followSource context source load
  match failed, error with
  | some (waiter, error), _ => .error (load.waiterFailure waiter error)
  | none, some error => .error error
  | none, none => .ok load

def rejection (load : Load) (location : List Char) (error : Error) : Error :=
  match load.waiters.find? (·.location == location) with
  | some waiter => load.waiterFailure waiter error
  | none => error

def deliver (context : LoadContext) (location : List Char) (result : Except Error Fetched)
    (load : Load) : Except Error Load :=
  match result.bind (Source.read context.base context.model) with
  | .ok source => load.accept context location source
  | .error error => .error (load.rejection location error)

/-! ### The program -/

def finished (load : Load) (tool : Tool) : Tool :=
  match load.mappings.get? tool.id with
  | none => tool
  | some mapping =>
    { tool with
      toolMapping := tool.toolMapping.merge (tool.tools.filterMap (fun reference =>
        (mapping.get? reference).map (fun target => (reference, target)))) }

def program (load : Load) (name entry : String) : Program :=
  { name, entry, tools := load.tools.mapValues load.finished }

end Load
end ToolGraph
