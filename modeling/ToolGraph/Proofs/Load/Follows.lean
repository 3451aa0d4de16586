import ToolGraph.Proofs.Load.Turns

/-!
Loads of one root in two worlds of which each has what the other has, at least where the loads look.
They fetch the same and come to the same, in the order of the loader and in every other.
-/
namespace ToolGraph

/-- Two requests differ in their roots alone. -/
structure LoadRequest.Like (one two : LoadRequest) : Prop where
  name : one.name = two.name
  subToolName : one.subToolName = two.subToolName
  base : one.base = two.base
  settings : one.settings = two.settings

namespace LoadRequest.Like
variable {one two : LoadRequest}

theorem symm (same : one.Like two) : two.Like one :=
  ⟨same.name.symm, same.subToolName.symm, same.base.symm, same.settings.symm⟩

theorem contextAt (same : one.Like two) (place : Canonical.Place) :
    one.contextAt place = two.contextAt place := by
  simp only [LoadRequest.contextAt, same.base, same.settings]

theorem patience (same : one.Like two) : one.patience = two.patience := by
  simp only [LoadRequest.patience, same.settings]

end LoadRequest.Like

namespace Load

section follows
variable {allowed : List Char → Prop} {related : World → World → Prop} {one two : LoadRequest}

/-- In related worlds, the same is fetched until nothing is pending, and it comes to the same. -/
theorem drain_follows (follows : World.Follows one.patience allowed related) (same : one.Like two)
    (context : LoadContext) (bound peak : Nat) (load : Load) {here there : World}
    (like : related here there)
    (within : ∀ location ∈ drainLocations one context bound load here, allowed location) :
    (drain one context bound peak load here).1 = (drain two context bound peak load there).1 ∧
      drainLocations one context bound load here = drainLocations two context bound load there := by
  induction bound generalizing peak load here there with
  | zero =>
    simp only [drain, drainLocations, timeUp, same.settings, same.name]
    exact ⟨trivial, trivial⟩
  | succ bound ih =>
    simp only [drain, drainLocations] at within ⊢
    cases pending : load.pending with
    | nil => exact ⟨rfl, rfl⟩
    | cons location rest =>
      simp only [pending] at within
      cases delivered : load.deliver context location
          (Fetch.location one.patience location here).1 with
      | error error =>
        simp only [delivered] at within
        obtain ⟨answer, -⟩ := follows.fetch like (within location (List.mem_singleton_self location))
        simp only [← same.patience, ← same.settings, ← answer, delivered]
        exact ⟨trivial, trivial⟩
      | ok next =>
        simp only [delivered] at within
        obtain ⟨first, others⟩ := List.forall_mem_cons.mp within
        obtain ⟨answer, kept⟩ := follows.fetch like first
        obtain ⟨result, locations⟩ :=
          ih (max peak (load.openRequests one.settings)) next kept others
        simp only [← same.patience, ← same.settings, ← answer, delivered]
        exact ⟨result, congrArg _ locations⟩

theorem run_follows (follows : World.Follows one.patience allowed related) (same : one.Like two)
    (early : one.isOver = false) {world world' here there : World} {location : List Char}
    {fetched : Fetched} (context : one.context world = two.context world')
    (bound : sourceBound world = sourceBound world')
    (found : one.fetchRoot world = (.ok (location, fetched), here))
    (found' : two.fetchRoot world' = (.ok (location, fetched), there)) (like : related here there)
    (within : ∀ {load entry}, begin one (one.context world) location fetched = .ok (load, entry) →
      ∀ place ∈ drainLocations one (one.context world) (sourceBound world) load here,
        allowed place) :
    (run one world).result = (run two world').result ∧
      ∃ locations, location ∉ locations ∧
        (run one world).world = here.afterFetches one.patience locations ∧
        (run two world').world = there.afterFetches one.patience locations := by
  have early' : two.isOver = false := by rw [← early, LoadRequest.isOver, ← same.settings]; rfl
  have first := run_of_root early found
  have second := run_of_root early' found'
  have begins : begin two (two.context world') location fetched =
      begin one (one.context world) location fetched := by
    simp only [begin, ← context, same.subToolName]
  rw [begins] at second
  cases begun : begin one (one.context world) location fetched with
  | error error =>
    simp only [begun] at first second
    exact ⟨first.1.trans second.1.symm, [], List.not_mem_nil, first.2, second.2⟩
  | ok done =>
    obtain ⟨load, entry⟩ := done
    simp only [begun] at first second
    obtain ⟨result, locations⟩ := drain_follows follows same (one.context world)
      (sourceBound world) (if Location.isUrl location then 1 else 0) load like (within begun)
    obtain ⟨root, past⟩ := rootFound_of_fetchRoot found
    have other := (begin_fetches (sourceBound world) root past begun).2.1
    rw [← context, ← bound, ← same.patience, ← same.name, ← result, ← locations] at second
    exact ⟨first.1.trans second.1.symm, _, other, first.2, second.2⟩

theorem Ends.follows (follows : World.Follows one.patience allowed related) (same : one.Like two)
    {world world' here there : World} {location : List Char} {fetched : Fetched}
    (context : one.context world = two.context world')
    (found : one.fetchRoot world = (.ok (location, fetched), here))
    (found' : two.fetchRoot world' = (.ok (location, fetched), there)) (like : related here there)
    {locations : List (List Char)} {result : Except Error Program}
    (ends : Ends one world locations result)
    (within : ∀ place ∈ locations, allowed place) : Ends two world' locations result := by
  have known : ∀ {place content later}, one.fetchRoot world = (.ok (place, content), later) →
      two.fetchRoot world' = (.ok (place, content), there) ∧ later = here := by
    intro place content later known
    obtain ⟨rooted, rfl⟩ := Prod.mk.inj (found.symm.trans known)
    exact ⟨rooted ▸ found', rfl⟩
  have opened : ∀ {place source later}, Opens one world place source later →
      Opens two world' place source there ∧ later = here := by
    rintro place source later ⟨content, root, read⟩
    exact ⟨⟨content, (known root).1, context ▸ read⟩, (known root).2⟩
  cases ends with
  | noRoot refused => simp [found] at refused
  | unread root refused => exact .unread (known root).1 (context ▸ refused)
  | noEntry opens refused => exact .noEntry (opened opens).1 (same.subToolName ▸ refused)
  | failed opens selected turns raised =>
    obtain ⟨opens, rfl⟩ := opened opens
    have turns := turns.follows follows like within
    rw [context, same.patience] at turns
    exact .failed opens (same.subToolName ▸ selected) turns raised
  | completed opens selected turns done =>
    obtain ⟨opens, rfl⟩ := opened opens
    have turns := turns.follows follows like within
    rw [context, same.patience] at turns
    exact same.name ▸ .completed opens (same.subToolName ▸ selected) turns done

end follows
end Load
end ToolGraph
