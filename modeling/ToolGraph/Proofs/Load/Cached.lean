import ToolGraph.Proofs.Load.Follows
import ToolGraph.Proofs.Session

/-!
Loads in a session with a cache. They come to the same as without it, in the order of the loader and in
every other, whatever lapses meanwhile.
-/
namespace ToolGraph
open World

/-- The same world without a cache, but for what was requested, read and waited for. -/
structure World.Mirrors (replies : List Char → Reply) (plain world : World) : Prop where
  place : plain.place = world.place
  files : plain.files = world.files
  fixed : plain.Fixed replies
  uncached : plain.cache = none

/-- A world of a session, and what it mirrors. -/
structure World.Shadows (replies : List Char → Reply) (used : List Char → Prop) (world plain : World) :
    Prop extends World.Mirrors replies plain world where
  steadfast : world.Steadfast replies used

section fetches
variable {replies : List Char → Reply} {used : List Char → Prop} {world plain : World}

theorem Fetch.location_uncached (patience : Patience) (location : List Char)
    (empty : plain.cache = none) : (Fetch.location patience location plain).2.cache = none :=
  World.Later.uncached (@World.Later.fetch patience plain plain location .now) empty

theorem Fetch.location_shadow (apart : Digest.Separates used)
    (shadows : Shadows replies used world plain) (patience : Patience) {location : List Char}
    (within : Canonical.Within used world.place location) :
    (Fetch.location patience location world).1 = (Fetch.location patience location plain).1 := by
  have same : plain.canonical location = world.canonical location := by
    rw [World.canonical, shadows.place]
    rfl
  cases found : world.canonical location with
  | error error => simp only [Fetch.location, same, found]
  | ok url =>
    rw [location_of_canonical patience found, location_of_canonical patience (same.trans found)]
    by_cases remote : Location.isUrl url = true
    · simp only [remote, if_true]
      have absent : plain.cache.bind (·.get? (String.ofList url)) = none := by
        simp [shadows.uncached]
      suffices equal : (web patience url world).1 = (web patience url plain).1 by
        simp only [equal]
      rw [web_of_absent patience absent]
      cases cached : world.cache.bind (·.get? (String.ofList url)) with
      | none =>
        rw [web_of_absent patience cached]
        exact (respond_attempt (responding_fixed replies) patience url patience.retries 0
          ⟨shadows.steadfast.fixed, shadows.fixed⟩).1
      | some content =>
        obtain ⟨cache, stored, held⟩ := Option.bind_eq_some_iff.mp cached
        obtain ⟨other, known, -, -, key, brings⟩ :=
          shadows.steadfast.keeps cache stored _ (Cache.mem_of_get? held)
        obtain rfl : other = url := apart known (within url found remote) key
        have brings := brings.fixed shadows.steadfast.fixed shadows.fixed
        rw [web_of_cached patience cached, (attempt_eq_ok shadows.fixed).mpr brings]
    · simp only [remote, Bool.false_eq_true, if_false, file_congr url shadows.files]

theorem World.Shadows.fetch (shadows : Shadows replies used world plain) (patience : Fetch.Patience)
    {location : List Char} (within : Canonical.Within used world.place location) :
    Shadows replies used (Fetch.location patience location world).2
      (Fetch.location patience location plain).2 := by
  obtain ⟨place, files⟩ := Fetch.location_keeps patience location world
  obtain ⟨place', files'⟩ := Fetch.location_keeps patience location plain
  refine ⟨⟨?_, ?_, ?_, ?_⟩, shadows.steadfast.fetch within⟩
  · exact place'.trans (shadows.place.trans place.symm)
  · exact files'.trans (shadows.files.trans files.symm)
  · exact Fetch.fixed_location shadows.fixed patience location
  · exact Fetch.location_uncached patience location shadows.uncached

theorem World.follows_shadow (apart : Digest.Separates used) (patience : Fetch.Patience)
    (place : Canonical.Place) : World.Follows patience (Canonical.Within used place)
      fun world plain => Shadows replies used world plain ∧ world.place = place := by
  constructor
  rintro world plain ⟨shadows, rfl⟩ location within
  refine ⟨Fetch.location_shadow apart shadows patience within, shadows.fetch patience within, ?_⟩
  exact (Fetch.location_keeps patience location world).1

end fetches

namespace Load

def runLocations (request : LoadRequest) (world : World) : List (List Char) :=
  if request.isOver then []
  else
    match request.rootLocation (request.context world) with
    | .error _ => []
    | .ok root =>
      rootFetches request root ++
        match request.fetchRoot world with
        | (.error _, _) => []
        | (.ok (location, fetched), later) =>
          match begin request (request.context world) location fetched with
          | .error _ => []
          | .ok (load, _) =>
            drainLocations request (request.context world) (sourceBound world) load later

/-! ### The root -/

section loads
variable {replies : List Char → Reply} {used : List Char → Prop} {world plain : World}
  {request : LoadRequest}

theorem fetchRoot_of_error {error : Error}
    (refused : request.rootLocation (request.context world) = .error error) :
    request.fetchRoot world = (.error error, world) := by
  simp only [LoadRequest.fetchRoot, refused]

theorem fetchRoot_shadow (apart : Digest.Separates used)
    (shadows : Shadows replies used world plain)
    (within : ∀ root, request.rootLocation (request.context world) = .ok root →
      ∀ location ∈ rootFetches request root, Canonical.Within used world.place location) :
    ∃ answer here there, request.fetchRoot world = (answer, here) ∧
      request.fetchRoot plain = (answer, there) ∧ Shadows replies used here there ∧
        here.place = world.place := by
  have context : request.context plain = request.context world := by
    simp only [LoadRequest.context, shadows.place]
  cases rooted : request.rootLocation (request.context world) with
  | error error =>
    exact ⟨_, _, _, fetchRoot_of_error rooted, fetchRoot_of_error (context ▸ rooted), shadows, rfl⟩
  | ok root =>
    simp only [LoadRequest.fetchRoot, context, rooted]
    cases kind : request.root with
    | text content location => exact ⟨_, _, _, rfl, rfl, shadows, rfl⟩
    | reference text =>
      have member : root ∈ rootFetches request root := by simp [rootFetches, kind]
      have allowed := within root rooted root member
      simp only [Fetch.location_shadow apart shadows request.patience allowed]
      exact ⟨_, _, _, rfl, rfl, shadows.fetch request.patience allowed,
        (Fetch.location_keeps request.patience root world).1⟩

theorem Ends.of_noRoot {later : World} {error : Error} {locations : List (List Char)}
    {result : Except Error Program} (refused : request.fetchRoot world = (.error error, later))
    (ends : Ends request world locations result) : locations = [] ∧ result = .error error := by
  cases ends with
  | noRoot refused' =>
    have same := (Prod.mk.inj (refused.symm.trans refused')).1
    exact ⟨rfl, congrArg _ (Except.error.inj same).symm⟩
  | unread found => simp [refused] at found
  | noEntry opens | failed opens | completed opens =>
    obtain ⟨_, found, -⟩ := opens
    simp [refused] at found

theorem ends_shadow (apart : Digest.Separates used) (shadows : Shadows replies used world plain)
    {locations : List (List Char)} {result : Except Error Program}
    (within : ∀ root, request.rootLocation (request.context world) = .ok root →
      ∀ location ∈ rootFetches request root ++ locations,
        Canonical.Within used world.place location) :
    Ends request world locations result ↔ Ends request plain locations result := by
  have context : request.context world = request.context plain := by
    simp only [LoadRequest.context, shadows.place]
  obtain ⟨answer, here, there, found, found', kept, place⟩ :=
    fetchRoot_shadow apart shadows fun root rooted location member =>
      within root rooted location (List.mem_append_left _ member)
  have like : request.Like request := ⟨rfl, rfl, rfl, rfl⟩
  cases answer with
  | error error =>
    constructor
    · intro ends
      obtain ⟨rfl, rfl⟩ := ends.of_noRoot found
      exact .noRoot found'
    · intro ends
      obtain ⟨rfl, rfl⟩ := ends.of_noRoot found'
      exact .noRoot found
  | ok content =>
    obtain ⟨location, fetched⟩ := content
    have rooted := (rootFound_of_fetchRoot found).1.1
    have others : ∀ place ∈ locations, Canonical.Within used world.place place :=
      fun place member => within location rooted place (List.mem_append_right _ member)
    have follows := @World.follows_shadow replies used apart request.patience world.place
    constructor
    · exact fun ends => ends.follows follows like context found found' ⟨kept, place⟩ others
    · exact fun ends => ends.follows follows.symm like context.symm found' found ⟨kept, place⟩ others

theorem run_shadow (apart : Digest.Separates used) (shadows : Shadows replies used world plain)
    (within : ∀ location ∈ runLocations request world, Canonical.Within used world.place location) :
    (run request world).result = (run request plain).result := by
  have context : request.context world = request.context plain := by
    simp only [LoadRequest.context, shadows.place]
  cases early : request.isOver with
  | true =>
    simp only [run, complete, if_pos early]
  | false =>
    have roots : ∀ root, request.rootLocation (request.context world) = .ok root →
        ∀ location ∈ rootFetches request root, Canonical.Within used world.place location := by
      intro root rooted location member
      apply within
      simp only [runLocations, early, Bool.false_eq_true, if_false, rooted]
      exact List.mem_append_left _ member
    obtain ⟨answer, here, there, found, found', kept, place⟩ := fetchRoot_shadow apart shadows roots
    cases answer with
    | error error =>
      simp only [run, complete, early, Bool.false_eq_true, if_false, found, found']
    | ok content =>
      obtain ⟨location, fetched⟩ := content
      have rooted : request.rootLocation (request.context world) = .ok location :=
        (rootFound_of_fetchRoot found).1.1
      have bound : sourceBound world = sourceBound plain := by
        simp only [sourceBound, longestLocation, shadows.files]
      have follows := @World.follows_shadow replies used apart request.patience world.place
      refine (run_follows follows ⟨rfl, rfl, rfl, rfl⟩ early context bound found found'
        ⟨kept, place⟩ fun begun place member => within place ?_).1
      simp only [runLocations, early, Bool.false_eq_true, if_false, rooted, found, begun]
      exact List.mem_append_right _ member

theorem run_world (request : LoadRequest) (world : World) :
    (run request world).world = world.afterFetches request.patience (runLocations request world) := by
  cases early : request.isOver with
  | true =>
    simp only [run, complete, runLocations, if_pos early]
    rfl
  | false =>
    simp only [runLocations, early, Bool.false_eq_true, if_false]
    cases rooted : request.rootLocation (request.context world) with
    | error error =>
      simp only [run, complete, early, Bool.false_eq_true, if_false, fetchRoot_of_error rooted]
      rfl
    | ok root =>
      have first := fetchRoot_fetches rooted
      simp only [World.afterFetches, List.foldl_append] at first ⊢
      rw [← first]
      cases found : request.fetchRoot world with
      | mk answer later =>
        cases answer with
        | error error =>
          simp only [run, complete, early, Bool.false_eq_true, if_false, found]
          rfl
        | ok content =>
          obtain ⟨location, fetched⟩ := content
          have ran := run_of_root early found
          simp only
          cases begun : begin request (request.context world) location fetched with
          | error error =>
            rw [begun] at ran
            exact ran.2
          | ok done =>
            rw [begun] at ran
            exact ran.2

/-! ### Whatever is answered meanwhile -/

theorem Outcome.mono {place : Canonical.Place} {answers answers' : Answers}
    (more : ∀ {location result}, answers location result → answers' location result)
    {result : Except Error Program} (outcome : Outcome request place answers result) :
    Outcome request place answers' result := by
  have found : ∀ {location result}, RootFound request place answers location result →
      RootFound request place answers' location result := by
    rintro location result ⟨rooted, answer⟩
    refine ⟨rooted, ?_⟩
    simp only [RootAnswers] at answer ⊢
    cases kind : request.root with
    | text content location =>
      rw [kind] at answer
      exact answer
    | reference text =>
      rw [kind] at answer
      exact more answer
  have read : ∀ {location source}, RootRead request place answers location source →
      RootRead request place answers' location source := by
    rintro location source ⟨fetched, root, read⟩
    exact ⟨fetched, found root, read⟩
  cases outcome with
  | late timed => exact .late timed
  | noLocation refused => exact .noLocation refused
  | noRoot root refused => exact .noRoot (found root) refused
  | noEntry root refused => exact .noEntry (read root) refused
  | failed reached raised =>
    obtain ⟨location, source, root, selected, steps⟩ := reached
    exact .failed ⟨location, source, read root, selected, Steps.mono more steps⟩ raised
  | completed done =>
    obtain ⟨early, location, source, state, root, selected, steps, rest⟩ := done
    exact .completed ⟨early, location, source, state, read root, selected, Steps.mono more steps, rest⟩

/-! ### Sessions -/

theorem session_afterFetches {start : World} {patience : Fetch.Patience}
    {locations : List (List Char)} (session : Session used start world)
    (within : ∀ location ∈ locations, Canonical.Within used world.place location) :
    Session used start (world.afterFetches patience locations) := by
  induction locations generalizing world with
  | nil => exact session
  | cons location rest ih =>
    obtain ⟨first, others⟩ := List.forall_mem_cons.mp within
    refine ih (session.fetch first) fun place member => ?_
    rw [(Fetch.location_keeps patience location world).1]
    exact others place member

theorem session_run {start : World} (session : Session used start world)
    (within : ∀ location ∈ runLocations request world, Canonical.Within used world.place location) :
    Session used start (run request world).world := by
  rw [run_world]
  exact session_afterFetches session within

/-- What is answered while a session goes on that leaves the files alone: the cache may lapse or be
changed at any time. -/
def answersMeanwhile (used : List Char → Prop) (world : World) (request : LoadRequest) : Answers :=
  fun location result => Canonical.Within used world.place location ∧
    ∃ later, Session used world later ∧ later.files = world.files ∧
      (Fetch.location request.patience location later).1 = result

end loads

structure Transparent (replies : List Char → Reply) (used : List Char → Prop) (world : World) :
    Prop where
  /-- The loader returns the same without the cache. -/
  loads : ∀ {plain : World}, plain.Mirrors replies world → ∀ {request},
    (∀ location ∈ runLocations request world, Canonical.Within used world.place location) →
    (run request world).result = (run request plain).result
  /-- In every order of the tasks, the same can come of the same fetches. -/
  orders : ∀ {plain : World}, plain.Mirrors replies world → ∀ {request locations result},
    (∀ root, request.rootLocation (request.context world) = .ok root →
      ∀ location ∈ rootFetches request root ++ locations,
        Canonical.Within used world.place location) →
    (Ends request world locations result ↔ Ends request plain locations result)
  /-- So it is if the cache lapses or changes in the middle of a load. -/
  lapses : ∀ {plain : World}, plain.Mirrors replies world → ∀ {request result},
    Outcome request world.place (answersMeanwhile used world request) result →
    Outcome request plain.place (plain.answers request) result
  /-- A URL that is in the cache is not requested. -/
  spared : ∀ {patience location url content}, world.canonical location = .ok url →
    Location.isUrl url = true → world.cache.bind (·.get? (String.ofList url)) = some content →
    Fetch.location patience location world = (.ok ⟨url, content⟩, world)
  /-- What is stored is what a canonical URL brings, under that URL. -/
  held : world.Stores (Keeps used world)
  /-- A fetch that fails leaves the cache as it is. -/
  failed : ∀ {patience location error}, (Fetch.location patience location world).1 = .error error →
    (Fetch.location patience location world).2.cache = world.cache
  /-- So does the fetch of a file. -/
  files : ∀ {patience location path}, world.canonical location = .ok path →
    Location.isUrl path = false → (Fetch.location patience location world).2.cache = world.cache

section transparent
variable {replies : List Char → Reply} {used : List Char → Prop} {world plain : World}

theorem fetch_spared {patience : Fetch.Patience} {location url : List Char} {content : Bytes}
    (found : world.canonical location = .ok url) (web : Location.isUrl url = true)
    (cached : world.cache.bind (·.get? (String.ofList url)) = some content) :
    Fetch.location patience location world = (.ok ⟨url, content⟩, world) := by
  rw [Fetch.location_of_canonical patience found, if_pos web, Fetch.web_of_cached patience cached]
  rfl

theorem cache_of_failed {patience : Fetch.Patience} {location : List Char} {error : Error}
    (failed : (Fetch.location patience location world).1 = .error error) :
    (Fetch.location patience location world).2.cache = world.cache := by
  rcases Fetch.caches_location patience location world with same | ⟨url, found, web, change⟩
  · exact same
  · generalize after : (Fetch.location patience location world).2.cache = later at change
    cases change with
    | same => rfl
    | stored absent answer =>
      rw [Fetch.location_of_canonical patience found, if_pos web] at failed
      have brought := (Fetch.web_of_absent patience absent).trans answer
      generalize Fetch.web patience url world = outcome at failed brought
      obtain ⟨result, rest⟩ := outcome
      obtain rfl : result = _ := brought
      simp [Except.map] at failed

theorem answers_meanwhile (apart : Digest.Separates used) (steadfast : world.Steadfast replies used)
    (mirrors : plain.Mirrors replies world) {request : LoadRequest} {location : List Char}
    {result : Except Error Fetched}
    (answer : answersMeanwhile used world request location result) :
    plain.answers request location result := by
  obtain ⟨within, later, session, files, rfl⟩ := answer
  have place : later.place = world.place := by
    obtain ⟨cwd, home⟩ := session.directories
    simp only [World.place, cwd, home, files]
  have shadows : Shadows replies used later plain :=
    ⟨⟨mirrors.place.trans place.symm, mirrors.files.trans files.symm, mirrors.fixed,
      mirrors.uncached⟩, session.steadfast steadfast⟩
  refine ⟨plain, .now, ?_⟩
  rw [← place] at within
  exact (Fetch.location_shadow apart shadows request.patience within).symm

/-- The cache of a session that starts with an empty one is transparent, whatever its settings, if each
URL always gives the same reply and no two URLs in use have the same digest. -/
theorem cache_transparent {start : World} (fixed : start.Fixed replies)
    (rooted : Path.isAbsolute start.cwd = true)
    (empty : ∀ cache, start.cache = some cache → cache.shelf = Shelf.empty)
    (apart : Digest.Separates used) (session : Session used start world) :
    Transparent replies used world := by
  have steadfast : world.Steadfast replies used :=
    session.steadfast (steadfast_of_empty fixed rooted empty)
  refine ⟨?loads, ?orders, ?lapses, fetch_spared, steadfast.keeps, cache_of_failed, ?files⟩
  case loads =>
    intro plain mirrors request within
    exact run_shadow apart ⟨mirrors, steadfast⟩ within
  case orders =>
    intro plain mirrors request locations result within
    exact ends_shadow apart ⟨mirrors, steadfast⟩ within
  case lapses =>
    intro plain mirrors request result outcome
    rw [mirrors.place]
    exact outcome.mono (answers_meanwhile apart steadfast mirrors)
  case files =>
    intro patience location path found file
    rw [Fetch.location_of_canonical patience found, if_neg (by simp [file])]
    exact Fetch.cache_file path world

end transparent

/-! ### A site that is loaded twice -/

/-- A file that refers to a URL, which refers to another one. -/
def stock : World :=
  { World.ofFiles "/work" [("/work/a.gpt", "tools: https://h/b.gpt\n\nGo on.")] with
    web := [("https://h/b.gpt".toList, [.answer 200 (Text.encode "tools: c.gpt\n\nGo on.".toList) none]),
      ("https://h/c.gpt".toList, [.answer 200 (Text.encode "Stop.".toList) none])]
    cache := some ⟨"/cache", ⟨true, 300⟩, Shelf.empty⟩ }

set_option maxRecDepth 10000 in
/-- The second load makes no request. -/
theorem stock_transparent :
    let request := LoadRequest.of "a.gpt"
    let urls := stock.web.keys
    let later := (run request stock).world
    later.requests = urls ∧ (run request later).world.requests = urls ∧
      (run request later).result.toOption.map (·.tools.keys) =
        some ["/work/a.gpt:1", "https://h/b.gpt:1", "https://h/c.gpt:1"] ∧
      Transparent stock.reply (· ∈ urls) later := by
  intro request urls later
  have single : ∀ entry ∈ stock.web, entry.2.length ≤ 1 := by decide
  have digests : (urls.map fun url => Digest.ofText (String.ofList url)).Nodup := by decide +kernel
  have apart : Digest.Separates (· ∈ urls) :=
    fun known known' same => List.inj_on_of_nodup_map digests known known' same
  have checked : ((runLocations request stock).all fun location =>
      (Canonical.location stock.place location).toOption.all fun url =>
        !Location.isUrl url || urls.contains url) = true := by decide +kernel
  have within : ∀ location ∈ runLocations request stock,
      Canonical.Within (· ∈ urls) stock.place location := by
    intro location member url found web
    have known := List.all_eq_true.mp checked location member
    simpa [found, web, Except.toOption] using known
  have session : Session (· ∈ urls) stock later := session_run .start within
  refine ⟨by decide +kernel, by decide +kernel, by decide +kernel, ?_⟩
  refine cache_transparent (World.fixed_reply single) (by decide) ?_ apart session
  intro cache known
  exact (Option.some.inj known) ▸ rfl

end Load
end ToolGraph
