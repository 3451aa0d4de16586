import ToolGraph.Proofs.Load.Fetched

/-!
Loads in a world, with one fetch at a time but otherwise in any order of the tasks. What a location
answers then depends on what was fetched before. Loads of one root in worlds that answer the same come
to the same in each of the orders.
-/
namespace ToolGraph

theorem World.Later.afterFetches {patience : Fetch.Patience} {world later : World}
    (past : World.Later patience world later) (locations : List (List Char)) :
    World.Later patience world (later.afterFetches patience locations) := by
  induction locations generalizing later with
  | nil => exact past
  | cons location rest ih => exact ih (past.fetch location)

theorem World.Follows.afterFetches {patience : Fetch.Patience} {allowed : List Char → Prop}
    {related : World → World → Prop} (follows : World.Follows patience allowed related)
    {locations : List (List Char)} (within : ∀ location ∈ locations, allowed location)
    {one two : World} (like : related one two) :
    related (one.afterFetches patience locations) (two.afterFetches patience locations) := by
  induction locations generalizing one two with
  | nil => exact like
  | cons location rest ih =>
    obtain ⟨first, others⟩ := List.forall_mem_cons.mp within
    exact ih others (follows.fetch like first).2

theorem World.Alike.afterFetches {related : World → World → Prop} (alike : World.Alike related)
    (patience : Fetch.Patience) (locations : List (List Char)) {one two : World}
    (like : related one two) :
    related (one.afterFetches patience locations) (two.afterFetches patience locations) :=
  (alike.follows patience).afterFetches (fun _ _ => trivial) like

namespace Load

def Progress.receive (context : LoadContext) (state : Progress) (location : List Char)
    (result : Except Error Fetched) : Progress :=
  match result.bind (Source.read context.base context.model) with
  | .ok source => state.register location source
  | .error error => { state with lost := state.lost ++ [(location, error)] }

inductive Turns (context : LoadContext) (patience : Fetch.Patience) (world : World)
    (start : Progress) : List (List Char) → Progress → Prop where
  | start : Turns context patience world start [] start
  | fetch {locations : List (List Char)} {state : Progress} {location : List Char}
      (turns : Turns context patience world start locations state)
      (awaited : state.load.sources.get? location = some none)
      (fresh : location ∉ state.lost.map Prod.fst) :
      Turns context patience world start (locations ++ [location]) (state.receive context location
        (Fetch.location patience location (world.afterFetches patience locations)).1)
  | task {locations : List (List Char)} {state later : Progress}
      (turns : Turns context patience world start locations state)
      (step : Step context (fun _ _ => False) state later) :
      Turns context patience world start locations later

def Opens (request : LoadRequest) (world : World) (location : List Char) (source : Source)
    (later : World) : Prop :=
  ∃ fetched, request.fetchRoot world = (.ok (location, fetched), later) ∧
    Source.read (request.context world).base (request.context world).model fetched = .ok source

/-- What comes of a request in a world in some order of the tasks, if time does not matter, and the
locations that are fetched after the root. -/
inductive Ends (request : LoadRequest) (world : World) :
    List (List Char) → Except Error Program → Prop where
  | noRoot {error : Error} {later : World}
      (refused : request.fetchRoot world = (.error error, later)) :
      Ends request world [] (.error error)
  | unread {location : List Char} {fetched : Fetched} {later : World} {error : Error}
      (found : request.fetchRoot world = (.ok (location, fetched), later))
      (refused : Source.read (request.context world).base (request.context world).model fetched =
        .error error) :
      Ends request world [] (.error error)
  | noEntry {location : List Char} {source : Source} {later : World} {error : Error}
      (opens : Opens request world location source later)
      (refused : source.select request.subToolName = .error error) :
      Ends request world [] (.error error)
  | failed {location : List Char} {source : Source} {later : World} {entry : String}
      {locations : List (List Char)} {state : Progress} {error : Error}
      (opens : Opens request world location source later)
      (selected : source.select request.subToolName = .ok entry)
      (turns : Turns (request.context world) request.patience later (Progress.rooted location source)
        locations state)
      (raised : state.MayRaise error) : Ends request world locations (.error error)
  | completed {location : List Char} {source : Source} {later : World} {entry : String}
      {locations : List (List Char)} {state : Progress}
      (opens : Opens request world location source later)
      (selected : source.select request.subToolName = .ok entry)
      (turns : Turns (request.context world) request.patience later (Progress.rooted location source)
        locations state)
      (done : state.IsDone) :
      Ends request world locations (.ok (state.load.program request.name entry))

/-! ### Turns are steps -/

section steps
variable {context : LoadContext} {answers : Answers} {patience : Fetch.Patience} {world : World}
  {start state later : Progress} {locations : List (List Char)}

theorem Step.mono {more : Answers}
    (weaker : ∀ {location result}, answers location result → more location result)
    (step : Step context answers state later) : Step context more state later := by
  cases step with
  | arrive awaited fresh answer read => exact .arrive awaited fresh (weaker answer) read
  | lose awaited fresh answer refused => exact .lose awaited fresh (weaker answer) refused
  | openSource next => exact .openSource next
  | perform next => exact .perform next
  | resume next arrived => exact .resume next arrived
  | giveUp next lost => exact .giveUp next lost
  | cancelJob next failed => exact .cancelJob next failed
  | cancelWaiter next failed => exact .cancelWaiter next failed

theorem Steps.mono {more : Answers}
    (weaker : ∀ {location result}, answers location result → more location result)
    (steps : Steps context answers state later) : Steps context more state later := by
  induction steps with
  | refl => exact .refl
  | tail _ step ih => exact ih.tail (step.mono weaker)

theorem Step.of_silent (step : Step context (fun _ _ => False) state later) :
    Step context answers state later :=
  step.mono False.elim

theorem receive_step {location : List Char} {result : Except Error Fetched}
    (awaited : state.load.sources.get? location = some none)
    (fresh : location ∉ state.lost.map Prod.fst) (answer : answers location result) :
    Step context answers state (state.receive context location result) := by
  unfold Progress.receive
  split
  next source read =>
    cases result with
    | error error => simp [Except.bind] at read
    | ok fetched => exact .arrive awaited fresh answer read
  next error refused => exact .lose awaited fresh answer refused

theorem Turns.steps (turns : Turns context patience world start locations state)
    (answer : ∀ locations location,
      answers location (Fetch.location patience location (world.afterFetches patience locations)).1) :
    Steps context answers start state := by
  induction turns with
  | start => exact .refl
  | fetch _ awaited fresh ih => exact ih.tail (receive_step awaited fresh (answer _ _))
  | task _ step ih => exact ih.tail step.of_silent

theorem Turns.apart {root : List Char} {first : Source}
    (turns : Turns context patience world (Progress.rooted root first) locations state) :
    root ∉ locations := by
  induction turns with
  | start => exact List.not_mem_nil
  | @fetch locations state location turns awaited _ ih =>
    have steps : Steps context (fun _ _ => True) _ state := turns.steps fun _ _ => trivial
    have sound := (Progress.sound_rooted context _ root first).steps steps
    have other := sound.load.ne_root awaited
    simp [ih, other.symm]
  | task _ _ ih => exact ih

theorem Turns.follows {allowed : List Char → Prop} {related : World → World → Prop}
    (follows : World.Follows patience allowed related) {one two : World} (like : related one two)
    (turns : Turns context patience one start locations state)
    (within : ∀ location ∈ locations, allowed location) :
    Turns context patience two start locations state := by
  induction turns with
  | start => exact .start
  | @fetch locations state location _ awaited fresh ih =>
    obtain ⟨others, last⟩ := List.forall_mem_append.mp within
    have kept := follows.afterFetches others like
    have same := (follows.fetch kept (last location (List.mem_singleton_self location))).1
    exact same ▸ (ih others).fetch awaited fresh
  | task _ step ih => exact (ih within).task step

end steps

theorem Opens.read {request : LoadRequest} {world : World} {location : List Char} {source : Source}
    {later : World} (opens : Opens request world location source later) :
    RootRead request world.place (world.answers request) location source ∧
      World.Later request.patience world later := by
  obtain ⟨fetched, found, read⟩ := opens
  obtain ⟨found, past⟩ := rootFound_of_fetchRoot found
  exact ⟨⟨fetched, found, read⟩, past⟩

theorem Turns.answered {request : LoadRequest} {context : LoadContext} {world later : World}
    {start state : Progress} {locations : List (List Char)}
    (turns : Turns context request.patience later start locations state)
    (past : World.Later request.patience world later) :
    Steps context (world.answers request) start state :=
  turns.steps fun locations _ => ⟨_, past.afterFetches locations, rfl⟩

theorem Ends.outcome {request : LoadRequest} {world : World} {locations : List (List Char)}
    {result : Except Error Program} (early : request.isOver = false)
    (ends : Ends request world locations result) :
    Outcome request world.place (world.answers request) result := by
  cases ends with
  | noRoot refused => exact noRoot_of_fetchRoot refused
  | unread found refused => exact .noRoot (rootFound_of_fetchRoot found).1 refused
  | noEntry opens refused => exact .noEntry opens.read.1 refused
  | failed opens selected turns raised =>
    obtain ⟨read, past⟩ := opens.read
    exact .failed ⟨_, _, read, ⟨_, selected⟩, turns.answered past⟩ raised
  | completed opens selected turns done =>
    obtain ⟨read, past⟩ := opens.read
    exact .completed ⟨early, _, _, _, read, selected, turns.answered past, done, rfl⟩

theorem Ends.apart {request : LoadRequest} {world : World} {root : List Char}
    {locations : List (List Char)} {result : Except Error Program}
    (rooted : request.rootLocation (request.context world) = .ok root)
    (ends : Ends request world locations result) : root ∉ locations := by
  have same : ∀ {location source later}, Opens request world location source later →
      location = root := by
    intro location source later opens
    obtain ⟨fetched, found, -⟩ := opens.read.1
    exact Except.ok.inj (found.1.symm.trans rooted)
  cases ends with
  | noRoot | unread | noEntry => exact List.not_mem_nil
  | failed opens _ turns | completed opens _ turns => exact same opens ▸ turns.apart

end Load
end ToolGraph
