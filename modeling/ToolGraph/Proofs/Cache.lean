import ToolGraph.Proofs.Fetch

/-!
What a cache holds. Nothing is stored but the content of a URL that was fetched, by its digest, and
nothing else than that is changed by a fetch.
-/
namespace ToolGraph

namespace Shelf

theorem mem_of_get? {shelf : Shelf} {url : String} {content : Bytes}
    (found : shelf.get? url = some content) : (Digest.ofText url, ⟨content, true⟩) ∈ shelf := by
  obtain ⟨stored, known, given⟩ := Option.bind_eq_some_iff.mp found
  split at given
  next live =>
    have same : stored = ⟨content, true⟩ := by
      obtain ⟨own, alive⟩ := stored
      simp_all
    exact same ▸ Entries.mem_of_get? known
  next => simp at given

theorem mem_set {shelf : Shelf} {seconds : Int} {url : String} {content : Bytes}
    {entry : String × Stored} (member : entry ∈ shelf.set seconds url content) :
    entry ∈ shelf ∨ entry.1 = Digest.ofText url ∧ entry.2.content = content := by
  have old : ∀ {entry}, entry ∈ (Entries.erase shelf (Digest.ofText url)).filter (·.2.live) →
      entry ∈ shelf :=
    fun member => List.mem_of_mem_filter (List.mem_of_mem_filter member)
  unfold set at member
  simp only at member
  split at member
  next => exact .inl (old member)
  next =>
    rcases List.mem_append.mp member with kept | new
    · exact .inl (old kept)
    · exact .inr (List.mem_singleton.mp new ▸ ⟨rfl, rfl⟩)

end Shelf

namespace Cache

theorem mem_of_get? {cache : Cache} {url : String} {content : Bytes}
    (found : cache.get? url = some content) : (Digest.ofText url, ⟨content, true⟩) ∈ cache.shelf := by
  unfold get? at found
  split at found
  next => exact Shelf.mem_of_get? found
  next => simp at found

theorem mem_set {cache : Cache} {url : String} {content : Bytes} {entry : String × Stored}
    (member : entry ∈ (cache.set url content).shelf) :
    entry ∈ cache.shelf ∨ entry.1 = Digest.ofText url ∧ entry.2.content = content := by
  unfold set change at member
  split at member
  next => exact Shelf.mem_set member
  next => exact .inl member

end Cache

namespace Fetch
open World

theorem attempt_invariant {holds : World → Prop}
    (send : ∀ {world}, holds world → ∀ url, holds (world.send url).2)
    (wait : ∀ {world}, holds world → ∀ seconds, holds (world.wait seconds))
    (patience : Patience) (url : List Char) (left number : Nat) {world : World}
    (before : holds world) : holds (attempt patience url left number world).2 := by
  let kept (one two : World) : Prop := one = two ∧ holds one
  have responding : Responding kept := by
    refine ⟨?_, ?_⟩
    · rintro one _ ⟨rfl, held⟩ url
      exact ⟨.refl _, rfl, send held url⟩
    · rintro one _ ⟨rfl, held⟩ seconds
      exact ⟨rfl, wait held seconds⟩
  exact (respond_attempt responding patience url left number ⟨rfl, before⟩).2.2

theorem attempt_keeps (patience : Patience) (url : List Char) (left number : Nat) (world : World) :
    let later := (attempt patience url left number world).2
    later.place = world.place ∧ later.files = world.files ∧ later.cache = world.cache := by
  refine @attempt_invariant
    (fun one => one.place = world.place ∧ one.files = world.files ∧ one.cache = world.cache)
    ?_ (fun same _ => same) patience url left number world ⟨rfl, rfl, rfl⟩
  intro one same url
  unfold World.send World.take
  split <;> exact same

theorem attempt_reads (patience : Patience) (url : List Char) (left number : Nat) (world : World) :
    (attempt patience url left number world).2.reads = world.reads := by
  refine @attempt_invariant (fun one => one.reads = world.reads) ?_ (fun same _ => same) patience url
    left number world rfl
  intro one same url
  unfold World.send World.take
  split <;> exact same

/-- The change that a fetch makes to a cache. -/
inductive Caches (patience : Patience) (url : List Char) (world : World) : Option Cache → Prop where
  | same : Caches patience url world world.cache
  | stored {content : Bytes}
      (absent : world.cache.bind (·.get? (String.ofList url)) = none)
      (found : (attempt patience url patience.retries 0 world).1 = .ok content) :
      Caches patience url world (world.cache.map (·.set (String.ofList url) content))

theorem web_of_cached (patience : Patience) {url : List Char} {world : World} {content : Bytes}
    (cached : world.cache.bind (·.get? (String.ofList url)) = some content) :
    web patience url world = (.ok content, world) := by
  simp only [web, cached]

theorem web_of_absent (patience : Patience) {url : List Char} {world : World}
    (absent : world.cache.bind (·.get? (String.ofList url)) = none) :
    (web patience url world).1 = (attempt patience url patience.retries 0 world).1 := by
  simp only [web, absent]
  generalize attempt patience url patience.retries 0 world = tried
  obtain ⟨result, later⟩ := tried
  cases result <;> rfl

theorem caches_web (patience : Patience) (url : List Char) (world : World) :
    Caches patience url world (web patience url world).2.cache := by
  have kept := (attempt_keeps patience url patience.retries 0 world).2.2
  cases absent : world.cache.bind (·.get? (String.ofList url)) with
  | some content =>
    rw [web_of_cached patience absent]
    exact .same
  | none =>
    have stored := @Caches.stored patience url world
    simp only [web, absent]
    generalize attempt patience url patience.retries 0 world = tried at kept stored
    obtain ⟨result, later⟩ := tried
    cases result with
    | error error =>
      simp only
      rw [kept]
      exact .same
    | ok content =>
      simp only
      rw [kept]
      exact stored absent rfl

theorem location_of_canonical (patience : Patience) {location place : List Char} {world : World}
    (found : world.canonical location = .ok place) :
    Fetch.location patience location world =
      let (result, later) :=
        if Location.isUrl place then web patience place world else file place world
      (result.map (fun content => ⟨place, content⟩), later) := by
  simp only [Fetch.location, found]

theorem file_world (path : List Char) (world : World) :
    (file path world).2 = world ∨ (file path world).2 = (world.read path).2 := by
  unfold file
  split
  · exact .inl rfl
  · exact .inr rfl

theorem cache_file (path : List Char) (world : World) :
    (file path world).2.cache = world.cache := by
  rcases file_world path world with same | same
  · rw [same]
  · rw [same]
    rfl

theorem file_congr {one two : World} (path : List Char) (same : one.files = two.files) :
    (file path one).1 = (file path two).1 := by
  unfold file
  split
  next => rfl
  next => simp only [World.read, same]

theorem caches_location (patience : Patience) (location : List Char) (world : World) :
    let later := (Fetch.location patience location world).2
    later.cache = world.cache ∨
      ∃ url, world.canonical location = .ok url ∧ Location.isUrl url = true ∧
        Caches patience url world later.cache := by
  cases found : world.canonical location with
  | error error =>
    simp only [Fetch.location, found]
    exact .inl trivial
  | ok url =>
    rw [location_of_canonical patience found]
    by_cases web : Location.isUrl url = true
    · simp only [web, if_true]
      exact .inr ⟨url, rfl, web, caches_web patience url world⟩
    · simp only [web, Bool.false_eq_true, if_false]
      exact .inl (cache_file url world)

theorem location_world (patience : Patience) (location : List Char) (world : World) :
    let later := (Fetch.location patience location world).2
    later = world ∨ (∃ path, later = (world.read path).2) ∨
      ∃ url cache, later = { (attempt patience url patience.retries 0 world).2 with cache } := by
  cases found : world.canonical location with
  | error error =>
    simp only [Fetch.location, found]
    exact .inl trivial
  | ok url =>
    rw [location_of_canonical patience found]
    by_cases remote : Location.isUrl url = true
    · simp only [remote, if_true]
      cases absent : world.cache.bind (·.get? (String.ofList url)) with
      | some content =>
        rw [web_of_cached patience absent]
        exact .inl rfl
      | none =>
        refine .inr (.inr ⟨url, (web patience url world).2.cache, ?_⟩)
        simp only [web, absent]
        generalize attempt patience url patience.retries 0 world = tried
        obtain ⟨result, later⟩ := tried
        cases result <;> rfl
    · simp only [remote, Bool.false_eq_true, if_false]
      exact (file_world url world).imp_right fun read => .inl ⟨url, read⟩

theorem location_keeps (patience : Patience) (location : List Char) (world : World) :
    let later := (Fetch.location patience location world).2
    later.place = world.place ∧ later.files = world.files := by
  rcases location_world patience location world with same | ⟨path, same⟩ | ⟨url, cache, same⟩
  · simp only [same]
    exact ⟨trivial, trivial⟩
  · simp only [same]
    exact ⟨rfl, rfl⟩
  · obtain ⟨place, files, -⟩ := attempt_keeps patience url patience.retries 0 world
    simp only [same]
    exact ⟨place, files⟩

/-! ### How much is requested -/

theorem requests_send (world : World) (url : List Char) :
    (world.send url).2.requests.length = world.requests.length + 1 := by
  have logged : (world.send url).2.requests = world.requests ++ [url] := by
    unfold World.send World.take
    split <;> rfl
  rw [logged, List.length_append, List.length_singleton]

theorem requests_follow (left : Nat) (url : List Char) (world : World) :
    (follow left url world).2.requests.length ≤ world.requests.length + (left + 1) := by
  induction left using Nat.strongRecOn generalizing url world with
  | ind left ih =>
    have sent := requests_send world url
    unfold follow
    generalize world.send url = answer at sent
    obtain ⟨reply, later⟩ := answer
    cases reply with
    | failed | tooManyRedirects | undecodable => simp only at sent ⊢; omega
    | answer status content target =>
      cases target with
      | none => simp only at sent ⊢; omega
      | some target =>
        simp only at sent ⊢
        split
        next =>
          cases redirect url target with
          | error => simp only; omega
          | ok next =>
            cases left with
            | zero => simp only; omega
            | succ left =>
              have more := ih left left.lt_succ_self next later
              simp only
              omega
        next => simp only; omega

theorem requests_request (url : List Char) (world : World) :
    (request url world).2.requests.length ≤ world.requests.length + (maxRedirects + 1) := by
  unfold request
  split
  next => simp only; omega
  next => exact requests_follow maxRedirects _ world

theorem requests_attempt (patience : Patience) (url : List Char) (left number : Nat)
    (world : World) :
    (attempt patience url left number world).2.requests.length ≤
      world.requests.length + (left + 1) * (maxRedirects + 1) := by
  have once := requests_request url world
  induction left generalizing number world with
  | zero =>
    simp only [attempt]
    omega
  | succ left ih =>
    rw [Nat.succ_mul (left + 1)]
    simp only [attempt]
    split
    next =>
      split
      next seconds _ =>
        have more := ih (number + 1) ((request url world).2.wait seconds) (requests_request _ _)
        have same : ((request url world).2.wait seconds).requests =
            (request url world).2.requests := rfl
        rw [same] at more
        omega
      next => exact Nat.le_trans once (by omega)
    next => exact Nat.le_trans once (by omega)

theorem requests_location (patience : Patience) (location : List Char) (world : World) :
    (Fetch.location patience location world).2.requests.length ≤
      world.requests.length + (patience.retries + 1) * (maxRedirects + 1) := by
  rcases location_world patience location world with same | ⟨path, same⟩ | ⟨url, cache, same⟩
  · rw [same]
    exact Nat.le_add_right _ _
  · rw [same]
    exact Nat.le_add_right _ _
  · simp only [same]
    exact requests_attempt patience url patience.retries 0 world

end Fetch

theorem World.Later.keeps {patience : Fetch.Patience} {world later : World}
    (past : Later patience world later) :
    later.place = world.place ∧ later.files = world.files := by
  induction past with
  | now => exact ⟨rfl, rfl⟩
  | fetch location before ih =>
    obtain ⟨place, files⟩ := Fetch.location_keeps patience location _
    exact ⟨place.trans ih.1, files.trans ih.2⟩

def World.Stores (world : World) (holds : String → Bytes → Prop) : Prop :=
  ∀ cache, world.cache = some cache → ∀ entry ∈ cache.shelf, holds entry.1 entry.2.content

theorem World.Stores.fetch {holds : String → Bytes → Prop} {patience : Fetch.Patience}
    {world : World} (stores : world.Stores holds) (location : List Char)
    (stored : ∀ {url content}, world.canonical location = .ok url → Location.isUrl url = true →
      (Fetch.attempt patience url patience.retries 0 world).1 = .ok content →
      holds (Digest.ofText (String.ofList url)) content) :
    (Fetch.location patience location world).2.Stores holds := by
  intro cache known entry member
  rcases Fetch.caches_location patience location world with same | ⟨url, found, web, change⟩
  · exact stores cache (same ▸ known) entry member
  · generalize (Fetch.location patience location world).2.cache = after at known change
    cases change with
    | same => exact stores cache known entry member
    | stored absent answer =>
      obtain ⟨before, old, rfl⟩ := Option.map_eq_some_iff.mp known
      rcases Cache.mem_set member with kept | ⟨key, new⟩
      · exact stores before old entry kept
      · exact key ▸ new ▸ stored found web answer

theorem World.Later.uncached {patience : Fetch.Patience} {world later : World}
    (past : Later patience world later) (empty : world.cache = none) : later.cache = none := by
  induction past with
  | now => exact empty
  | fetch location before ih =>
    rcases Fetch.caches_location patience location _ with same | ⟨url, found, web, change⟩
    · exact same.trans ih
    · generalize (Fetch.location patience location _).2.cache = after at change
      cases change with
      | same => exact ih
      | stored => simp [ih]

end ToolGraph
