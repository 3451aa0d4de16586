import ToolGraph.Proofs.Load.Termination
import ToolGraph.Proofs.Source

/-!
Canonical locations that stay as they are. A directory stands for its tool file, and where that is a
directory itself, its canonical location stands for another one. Everywhere else a canonical location is
its own, so that a load finds each source at the location that it keeps it under. A file is read twice
only through such a directory, or through a path that starts with one slash and with two.
-/
namespace ToolGraph

namespace Canonical
variable {place : Place} {location canonical : List Char}

def Settled (place : Place) (location : List Char) : Prop :=
  Location.isUrl location = true ∨ place.isDirectory location = false

instance (place : Place) (location : List Char) : Decidable (Settled place location) :=
  inferInstanceAs (Decidable (_ ∨ _))

end Canonical

/-! ### Fetches -/

namespace World

/-- The path that is read when a location is fetched, if any is. -/
def pathAt? (world : World) (location : List Char) : Option (List Char) :=
  match world.canonical location with
  | .ok path => if Location.isUrl path ∨ '\x00' ∈ path then none else some path
  | .error _ => none

end World

namespace Fetch
variable {patience : Patience} {world : World}

theorem reads_web (patience : Patience) (url : List Char) (world : World) :
    (web patience url world).2.reads = world.reads := by
  have tried := attempt_reads patience url patience.retries 0 world
  unfold web
  split
  next => rfl
  next =>
    generalize attempt patience url patience.retries 0 world = outcome at tried
    obtain ⟨result, later⟩ := outcome
    cases result <;> exact tried

theorem reads_location (patience : Patience) (location : List Char) (world : World) :
    (Fetch.location patience location world).2.reads =
      world.reads ++ (world.pathAt? location).toList := by
  cases found : world.canonical location with
  | error error => simp [Fetch.location, World.pathAt?, found]
  | ok canonical =>
    rw [location_of_canonical patience found]
    cases remote : Location.isUrl canonical with
    | true => simp [World.pathAt?, found, remote, reads_web]
    | false =>
      by_cases null : '\x00' ∈ canonical
      · simp [World.pathAt?, found, remote, file, null]
      · simp [World.pathAt?, found, remote, file, null, World.read]

end Fetch

namespace World
open Canonical
variable {world : World} {canonical : List Char} {locations : List (List Char)}

theorem pathAt?_of_keeps {one two : World} (same : two.place = one.place) :
    two.pathAt? = one.pathAt? := by
  funext location
  simp only [pathAt?, World.canonical, same]

theorem reads_afterFetches (patience : Fetch.Patience) (world : World)
    (locations : List (List Char)) :
    (world.afterFetches patience locations).reads =
      world.reads ++ locations.filterMap world.pathAt? := by
  induction locations generalizing world with
  | nil => simp [afterFetches]
  | cons location rest ih =>
    have place := (Fetch.location_keeps patience location world).1
    have later := ih (Fetch.location patience location world).2
    rw [pathAt?_of_keeps place, Fetch.reads_location] at later
    refine later.trans ?_
    cases known : world.pathAt? location <;> simp [known]

/-- Each path that can be read has one spelling, and no directory comes up together with the tool file
that stands for it. -/
def Apart (world : World) (locations : List (List Char)) : Prop :=
  ∀ one ∈ locations, '\x00' ∉ one → ∀ other ∈ locations,
    (Path.real one = Path.real other → one = other) ∧
      (¬ Settled world.place one → Settled world.place other →
        Path.real (Path.join one toolFile) ≠ Path.real other)

end World

/-! ### Loads -/

def LoadRequest.IsText (request : LoadRequest) (location : List Char) : Prop :=
  ∃ content place, request.root = .text content place ∧ place.toList = location

namespace Load
open Canonical
variable {request : LoadRequest} {world : World}

theorem root_cases {place : Place} {answers : Answers} {location : List Char}
    {result : Except Error Fetched} (found : RootFound request place answers location result) :
    (request.IsText location ∧ ∃ fetched, result = .ok fetched ∧ fetched.location = location) ∨
      ¬ request.IsText location ∧ (∃ written, Canonical.location place written = .ok location) ∧
        answers location result := by
  obtain ⟨located, answer⟩ := found
  cases root : request.root with
  | text content written =>
    simp only [LoadRequest.rootLocation, root, Except.ok.injEq] at located
    simp only [RootAnswers, root] at answer
    exact .inl ⟨⟨content, written, root, located⟩, _, answer, rfl⟩
  | reference reference =>
    simp only [LoadRequest.rootLocation, root] at located
    simp only [RootAnswers, root] at answer
    exact .inr ⟨by simp [LoadRequest.IsText, root], canonical_of_locate located, answer⟩

theorem canonical_of_calledFor {place : Place} {load : Load} {location : List Char}
    (called : CalledFor (request.contextAt place) load location) :
    ∃ written, Canonical.location place written = .ok location := by
  obtain ⟨call, needed, rfl⟩ := called
  obtain ⟨subTool, leads⟩ := needed.leads
  exact canonical_of_find (find_eq_ok_iff.mpr leads)

theorem Fetches.canonical {locations : List (List Char)} (fetches : Fetches request world locations) :
    ∀ location ∈ locations, ∃ written, world.canonical written = .ok location := by
  intro location member
  rcases fetches.needed location member with root | ⟨state, -, called⟩
  · unfold LoadRequest.rootLocation at root
    split at root
    next content written text =>
      obtain rfl := Except.ok.inj root
      exact absurd member (fetches.text content written text)
    next => exact canonical_of_locate root
  · exact canonical_of_calledFor called

theorem Fetches.reads {locations : List (List Char)} (fetches : Fetches request world locations) :
    (run request world).world.reads = world.reads ++ locations.filterMap world.pathAt? := by
  rw [fetches.fetched, World.reads_afterFetches]

theorem FetchedOnce.canonical {place : Place} {answers : Answers} {root : List Char} {first : Source}
    {calls : List Call} {answered : List (List Char)} {state : Progress}
    (once : FetchedOnce (request.contextAt place) root calls answered state)
    (read : RootRead request place answers root first) :
    (rootFetches request root ++ calls.map Call.location).Nodup ∧
      ∀ location ∈ rootFetches request root ++ calls.map Call.location,
        ∃ written, Canonical.location place written = .ok location := by
  obtain ⟨fetched, found, -⟩ := read
  obtain ⟨other, apart⟩ := List.nodup_cons.mp once.apart
  constructor
  · apply List.nodup_append.mpr ⟨nodup_rootFetches root, apart, ?_⟩
    intro location member place again
    rw [(mem_rootFetches member).1]
    exact (ne_of_mem_of_not_mem again other).symm
  · intro location member
    rcases List.mem_append.mp member with first | later
    · obtain ⟨rfl, reference⟩ := mem_rootFetches first
      rcases root_cases found with ⟨⟨content, place, text, -⟩, -⟩ | ⟨-, canonical, -⟩
      · exact absurd text (reference content place)
      · exact canonical
    · obtain ⟨call, called, rfl⟩ := List.mem_map.mp later
      exact canonical_of_calledFor ⟨call, once.needed call called, rfl⟩

end Load
end ToolGraph
