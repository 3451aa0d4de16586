import Mathlib.Logic.Relation
import ToolGraph.Load.Run

/-!
Loads whose tasks run in any order. Every source has a task that fetches it and one that opens its
references; every reference has a task of its own, which may have to wait for a source. A step lets
one task go on to its next pause. The outcomes of a request are those of all runs.
-/
namespace ToolGraph.Load

/-- A reference whose task has not started, and the location of the source that it comes from. -/
structure Job where
  origin : List Char
  tool : Tool
  reference : String

/-- A load between two steps of its tasks. -/
structure Progress where
  load : Load
  /-- The sources whose references nobody has looked at. -/
  opened : List Source
  jobs : List Job
  /-- The locations that turned out to have no source. -/
  lost : List (List Char × Error)
  /-- What has failed so far, with the location of the source that refers. -/
  failures : List (List Char × Error)

namespace Progress

/-- Takes in a source; its references come later. -/
def register (state : Progress) (location : List Char) (source : Source) : Progress :=
  { state with
    load :=
      { state.load.addTools source with
        sources := state.load.sources.put location (some source) }
    opened := state.opened ++ [source] }

def openSource (state : Progress) (source : Source) : Progress :=
  { state with
    jobs := state.jobs ++ (state.load.references source).map (fun reference =>
      ⟨source.location, reference.1, reference.2⟩) }

def fail (state : Progress) (origin : List Char) (error : Error) : Progress :=
  { state with failures := state.failures ++ [(origin, error)] }

def perform (context : LoadContext) (state : Progress) (job : Job) : Progress :=
  match follow context job.origin job.tool job.reference state.load with
  | (load, none) => { state with load }
  | (load, some error) => { state with load }.fail job.origin error

def answer (state : Progress) (source : Source) (waiter : Waiter) : Progress :=
  match state.load.linkSelected source waiter.subTool waiter.tool waiter.reference with
  | .ok load => { state with load }
  | .error error => state.fail waiter.origin error

def setWaiters (state : Progress) (waiters : List Waiter) : Progress :=
  { state with load := { state.load with waiters } }

/-- Nothing is left to be done, and nothing has failed. -/
structure IsDone (state : Progress) : Prop where
  opened : state.opened = []
  jobs : state.jobs = []
  waiters : state.load.waiters = []
  failures : state.failures = []

/-- Two references wait for a location that has not answered: one of a source that failed, which gives up
the fetch with all its references, and one of another source. -/
structure GivesUp (state : Progress) (own other : Waiter) : Prop where
  given : own ∈ state.load.waiters
  taken : other ∈ state.load.waiters
  failed : own.origin ∈ state.failures.map Prod.fst
  apart : other.origin ≠ own.origin
  shared : other.location = own.location
  awaited : state.load.sources.get? own.location = some none
  fresh : own.location ∉ state.lost.map Prod.fst

/-- What a load may raise in which a reference has failed. A source that loses a fetch to another one is
cancelled, and this may be seen before the failure is. -/
inductive MayRaise (state : Progress) : Error → Prop where
  | failure {origin : List Char} {error : Error} (failed : (origin, error) ∈ state.failures) :
      MayRaise state (state.load.failure origin error)
  | cancelled {own other : Waiter} (gives : state.GivesUp own other) :
      MayRaise state (.bare .cancelled)

theorem MayRaise.exists_failure {state : Progress} {error : Error} (raised : state.MayRaise error) :
    ∃ origin cause, (origin, cause) ∈ state.failures := by
  cases raised with
  | failure failed => exact ⟨_, _, failed⟩
  | cancelled gives =>
    obtain ⟨⟨origin, cause⟩, member, -⟩ := List.mem_map.mp gives.failed
    exact ⟨origin, cause, member⟩

def rooted (location : List Char) (source : Source) : Progress :=
  (⟨start, [], [], [], []⟩ : Progress).register location source

end Progress

/-- What a location may answer when it is fetched. -/
abbrev Answers := List Char → Except Error Fetched → Prop

/-- One step of one task. Once a reference has failed, the tasks of others may be given up. -/
inductive Step (context : LoadContext) (answers : Answers) : Progress → Progress → Prop where
  | arrive {state : Progress} {location : List Char} {fetched : Fetched} {source : Source}
      (awaited : state.load.sources.get? location = some none)
      (fresh : location ∉ state.lost.map Prod.fst)
      (answer : answers location (.ok fetched))
      (read : Source.read context.base context.model fetched = .ok source) :
      Step context answers state (state.register location source)
  | lose {state : Progress} {location : List Char} {result : Except Error Fetched} {error : Error}
      (awaited : state.load.sources.get? location = some none)
      (fresh : location ∉ state.lost.map Prod.fst)
      (answer : answers location result)
      (refused : result.bind (Source.read context.base context.model) = .error error) :
      Step context answers state { state with lost := state.lost ++ [(location, error)] }
  | openSource {state : Progress} {source : Source} {before after : List Source}
      (next : state.opened = before ++ source :: after) :
      Step context answers state ({ state with opened := before ++ after }.openSource source)
  | perform {state : Progress} {job : Job} {before after : List Job}
      (next : state.jobs = before ++ job :: after) :
      Step context answers state ({ state with jobs := before ++ after }.perform context job)
  | resume {state : Progress} {waiter : Waiter} {source : Source} {before after : List Waiter}
      (next : state.load.waiters = before ++ waiter :: after)
      (arrived : state.load.sources.get? waiter.location = some (some source)) :
      Step context answers state ((state.setWaiters (before ++ after)).answer source waiter)
  | giveUp {state : Progress} {waiter : Waiter} {error : Error} {before after : List Waiter}
      (next : state.load.waiters = before ++ waiter :: after)
      (lost : (waiter.location, error) ∈ state.lost) :
      Step context answers state ((state.setWaiters (before ++ after)).fail waiter.origin
        (error.onReference waiter.tool waiter.reference))
  | cancelJob {state : Progress} {job : Job} {before after : List Job}
      (next : state.jobs = before ++ job :: after) (failed : state.failures ≠ []) :
      Step context answers state { state with jobs := before ++ after }
  | cancelWaiter {state : Progress} {waiter : Waiter} {before after : List Waiter}
      (next : state.load.waiters = before ++ waiter :: after) (failed : state.failures ≠ []) :
      Step context answers state (state.setWaiters (before ++ after))

/-- Any number of steps. -/
abbrev Steps (context : LoadContext) (answers : Answers) : Progress → Progress → Prop :=
  Relation.ReflTransGen (Step context answers)

/-! ### Outcomes of a request -/

def RootAnswers (request : LoadRequest) (answers : Answers) : Answers :=
  match request.root with
  | .text content _ => fun location result => result = .ok ⟨location, Text.encode content.toList⟩
  | .reference _ => answers

def RootFound (request : LoadRequest) (place : Canonical.Place) (answers : Answers)
    (location : List Char) (result : Except Error Fetched) : Prop :=
  request.rootLocation (request.contextAt place) = .ok location ∧
    RootAnswers request answers location result

def RootRead (request : LoadRequest) (place : Canonical.Place) (answers : Answers)
    (location : List Char) (source : Source) : Prop :=
  ∃ fetched, RootFound request place answers location (.ok fetched) ∧
    Source.read (request.contextAt place).base (request.contextAt place).model fetched = .ok source

def Reaches (request : LoadRequest) (place : Canonical.Place) (answers : Answers)
    (state : Progress) : Prop :=
  ∃ location source, RootRead request place answers location source ∧
    (∃ entry, source.select request.subToolName = .ok entry) ∧
    Steps (request.contextAt place) answers (Progress.rooted location source) state

/-- A load of a request that comes to its end without failure, and its entry tool. -/
def Completes (request : LoadRequest) (place : Canonical.Place) (answers : Answers)
    (load : Load) (entry : String) : Prop :=
  request.isOver = false ∧ ∃ location source state, RootRead request place answers location source ∧
    source.select request.subToolName = .ok entry ∧
    Steps (request.contextAt place) answers (Progress.rooted location source) state ∧
    state.IsDone ∧ state.load = load

/-- What may come of a request, whatever the order of the steps. A request with a timeout may run
out of time at any point. -/
inductive Outcome (request : LoadRequest) (place : Canonical.Place) (answers : Answers) :
    Except Error Program → Prop where
  | late (timed : request.settings.timeout.isSome) :
      Outcome request place answers (.error (timeUp request))
  | noLocation {error : Error}
      (refused : request.rootLocation (request.contextAt place) = .error error) :
      Outcome request place answers (.error error)
  | noRoot {location : List Char} {result : Except Error Fetched} {error : Error}
      (found : RootFound request place answers location result)
      (refused : result.bind (Source.read (request.contextAt place).base
        (request.contextAt place).model) = .error error) :
      Outcome request place answers (.error error)
  | noEntry {location : List Char} {source : Source} {error : Error}
      (read : RootRead request place answers location source)
      (refused : source.select request.subToolName = .error error) :
      Outcome request place answers (.error error)
  | failed {state : Progress} {error : Error} (reached : Reaches request place answers state)
      (raised : state.MayRaise error) : Outcome request place answers (.error error)
  | completed {load : Load} {entry : String} (done : Completes request place answers load entry) :
      Outcome request place answers (.ok (load.program request.name entry))

end ToolGraph.Load
