import ToolGraph.Proofs.Load.Follows
import ToolGraph.Proofs.Reference
import ToolGraph.Proofs.Twins

/-!
A text that is loaded as if found at a location, and the same text found there. The two loads differ in
the fetch of the root alone, as the location is not fetched again: it is known by then, and a URL that
always brings the text does not run out of it.
-/
namespace ToolGraph
open Entries

/-! ### Two requests for one content -/

namespace World

/-- A location that is written in full, in its own canonical form and without spaces. -/
structure IsProper (world : World) (location : String) : Prop where
  absolute : (Location.isUrl location.toList || Path.isAbsolute location.toList) = true
  own : world.canonical location.toList = .ok location.toList
  unspaced : ∀ c ∈ location.toList, Text.isBlank c = false

theorem IsProper.read {world : World} {location : String} (proper : world.IsProper location) :
    Reference.read location = ⟨location, ""⟩ := by
  apply Reference.read_of_unspaced proper.unspaced
  · rintro rfl
    exact absurd proper.absolute (by decide)
  · rintro rfl
    exact absurd proper.absolute (by decide)

end World

namespace LoadRequest

def ofText (content location subTool base : String) (settings : LoaderSettings) : LoadRequest :=
  ⟨.text content location, subTool, base, settings⟩

def ofLocation (location subTool base : String) (settings : LoaderSettings) : LoadRequest :=
  ⟨.reference location, subTool, base, settings⟩

variable {world : World} {location : String} (content subTool base : String)
  (settings : LoaderSettings)

theorem subToolName_ofLocation (proper : world.IsProper location) :
    (ofLocation location subTool base settings).subToolName =
      (ofText content location subTool base settings).subToolName := by
  simp only [subToolName, ofLocation, ofText, proper.read]
  split
  next empty => exact (String.isEmpty_iff.mp empty).symm
  next => rfl

theorem rootLocation_ofLocation (proper : world.IsProper location) :
    let request := ofLocation location subTool base settings
    request.rootLocation (request.context world) = .ok location.toList := by
  have absolute : Location.isAbsolute location.toList = true := by
    have known := proper.absolute
    simp only [Bool.or_eq_true] at known
    rcases known with url | path
    · simp [Location.isAbsolute, url]
    · simp [Location.isAbsolute, path]
  simp only [rootLocation, ofLocation, proper.read, Outlook.locate, Location.join, absolute, if_true]
  exact proper.own

theorem fetchRoot_ofText :
    (ofText content location subTool base settings).fetchRoot world =
      (.ok (location.toList, ⟨location.toList, Text.encode content.toList⟩), world) := rfl

theorem fetchRoot_ofLocation (proper : world.IsProper location)
    (holds : world.Holds location.toList (Text.encode content.toList))
    (uncached : world.cache = none) :
    let request := ofLocation location subTool base settings
    request.fetchRoot world =
      (.ok (location.toList, ⟨location.toList, Text.encode content.toList⟩),
        (Fetch.location request.patience location.toList world).2) := by
  intro request
  have found := (Fetch.location_of_holds request.patience proper.own holds uncached).1
  have rooted : request.rootLocation (request.context world) = .ok location.toList :=
    rootLocation_ofLocation subTool base settings proper
  have written : request.root = .reference location := rfl
  simp only [fetchRoot, rooted, written, found, Except.map]

end LoadRequest

namespace Load

/-! ### One root, found in related worlds -/

section alike
variable {related : World → World → Prop} {one two : LoadRequest}

theorem run_alike (alike : World.Alike related) (same : one.Like two)
    (untimed : one.settings.timeout = none) {world here there : World} {location : List Char}
    {fetched : Fetched} (found : one.fetchRoot world = (.ok (location, fetched), here))
    (found' : two.fetchRoot world = (.ok (location, fetched), there)) (like : related here there) :
    (run one world).result = (run two world).result ∧
      ∃ locations, location ∉ locations ∧
        (run one world).world = here.afterFetches one.patience locations ∧
        (run two world).world = there.afterFetches one.patience locations := by
  have early : one.isOver = false := by simp [LoadRequest.isOver, untimed]
  exact run_follows (alike.follows one.patience) same early (same.contextAt world.place) rfl found
    found' like fun _ _ _ => trivial

theorem Ends.alike (alike : World.Alike related) (same : one.Like two) {world here there : World}
    {location : List Char} {fetched : Fetched}
    (found : one.fetchRoot world = (.ok (location, fetched), here))
    (found' : two.fetchRoot world = (.ok (location, fetched), there)) (like : related here there)
    {locations : List (List Char)} {result : Except Error Program}
    (ends : Ends one world locations result) : Ends two world locations result :=
  ends.follows (alike.follows one.patience) same (same.contextAt world.place) found found' like
    fun _ _ => trivial

theorem Outcome.alike (same : one.Like two) {place : Canonical.Place} {answers : Answers}
    (rooted : two.rootLocation (two.contextAt place) = one.rootLocation (one.contextAt place))
    (found : ∀ {location result}, RootFound one place answers location result →
      RootFound two place answers location result)
    {result : Except Error Program} (outcome : Outcome one place answers result) :
    Outcome two place answers result := by
  have context := same.contextAt place
  have read : ∀ {location source}, RootRead one place answers location source →
      RootRead two place answers location source := by
    rintro location source ⟨fetched, root, read⟩
    exact ⟨fetched, found root, context ▸ read⟩
  cases outcome with
  | late timed =>
    have limit : timeUp one = timeUp two := by simp only [timeUp, same.name, same.settings]
    exact limit ▸ .late (same.settings ▸ timed)
  | noLocation refused => exact .noLocation (rooted.trans refused)
  | noRoot root refused => exact .noRoot (found root) (context ▸ refused)
  | noEntry root refused => exact .noEntry (read root) (same.subToolName ▸ refused)
  | failed reached raised =>
    obtain ⟨location, source, root, ⟨entry, selected⟩, steps⟩ := reached
    exact .failed ⟨location, source, read root, ⟨entry, same.subToolName ▸ selected⟩,
      context ▸ steps⟩ raised
  | completed done =>
    obtain ⟨early, location, source, state, root, selected, steps, ends, load⟩ := done
    have early : two.isOver = false := by simpa only [LoadRequest.isOver, same.settings] using early
    exact same.name ▸ .completed ⟨early, location, source, state, read root,
      same.subToolName ▸ selected, context ▸ steps, ends, load⟩

end alike

/-! ### A text and the location that holds it -/

/-- Two requests come to the same, and do the same but for one fetch of a location that comes first. -/
structure SameButFirst (one two : LoadRequest) (world : World) (location : List Char)
    (content : Bytes) : Prop where
  /-- The loader returns the same. -/
  result : (run one world).result = (run two world).result
  /-- It fetches the same otherwise, and does not fetch the location again. -/
  fetches : ∃ locations, location ∉ locations ∧
    (run one world).world = world.afterFetches one.patience locations ∧
    (run two world).world = world.afterFetches one.patience (location :: locations)
  /-- In every order of the tasks, the same can come of the same fetches. -/
  orders : ∀ locations result, Ends one world locations result ↔ Ends two world locations result
  apart : ∀ {locations result}, Ends one world locations result → location ∉ locations
  /-- The same is requested, read and waited for after the first fetch. -/
  logs : ∀ locations, World.SameSince world (Fetch.location one.patience location world).2
    (world.afterFetches one.patience locations)
    (world.afterFetches one.patience (location :: locations))
  /-- The answers to other fetches do not matter, nor in which order they come. -/
  outcomes : ∀ {answers : Answers},
    (∀ result, answers location result ↔ result = .ok ⟨location, content⟩) →
    ∀ result, Outcome one world.place answers result ↔ Outcome two world.place answers result

/-- A text that is loaded as if found at a location comes to the same as the location that holds it.
The location is fetched in the second case alone, and only once. -/
theorem text_loads_as_fetched {world : World} {content location : String} (subTool base : String)
    (settings : LoaderSettings) (proper : world.IsProper location)
    (holds : world.Holds location.toList (Text.encode content.toList))
    (uncached : world.cache = none) (untimed : settings.timeout = none) :
    SameButFirst (.ofText content location subTool base settings)
      (.ofLocation location subTool base settings) world location.toList
      (Text.encode content.toList) := by
  let text := LoadRequest.ofText content location subTool base settings
  let fetched := LoadRequest.ofLocation location subTool base settings
  have same : text.Like fetched :=
    ⟨rfl, (LoadRequest.subToolName_ofLocation content subTool base settings proper).symm, rfl, rfl⟩
  have rooted : fetched.rootLocation (fetched.context world) = .ok location.toList :=
    LoadRequest.rootLocation_ofLocation subTool base settings proper
  have found := @LoadRequest.fetchRoot_ofText world location content subTool base settings
  have found' := LoadRequest.fetchRoot_ofLocation content subTool base settings proper holds uncached
  have twins := (Fetch.location_of_holds text.patience proper.own holds uncached).2
  have alike := World.alike_twins (Text.encode content.toList)
  obtain ⟨result, fetches⟩ := run_alike (alike _ _) same untimed found found' twins
  refine ⟨result, fetches, ?_, ?_, ?_, ?_⟩
  · intro locations result
    exact ⟨Ends.alike (alike _ _) same found found' twins,
      Ends.alike (alike _ _) same.symm found' found twins.symm⟩
  · intro locations result ends
    exact ends.apart rfl
  · intro locations
    exact ((alike _ _).afterFetches text.patience locations twins).logs
  · intro answers settled result
    have roots : ∀ {place answer}, RootFound text world.place answers place answer ↔
        RootFound fetched world.place answers place answer := by
      intro place answer
      constructor
      · intro root
        have here : Except.ok location.toList = .ok place := root.1
        obtain rfl := Except.ok.inj here
        exact ⟨rooted, (settled answer).mpr root.2⟩
      · intro root
        obtain rfl := Except.ok.inj (rooted.symm.trans root.1)
        exact ⟨rfl, (settled answer).mp root.2⟩
    exact ⟨Outcome.alike same rooted roots.mp, Outcome.alike same.symm rooted.symm roots.mpr⟩

def page : String := "tools: b.gpt, a.gpt\n\nGo on."

def site : World :=
  { World.ofFiles "/work" [] with
    web := [("https://h/a.gpt".toList, List.replicate 2 (.answer 200 (Text.encode page.toList) none)),
      ("https://h/b.gpt".toList, [.answer 200 (Text.encode "tools: a.gpt\n\nStop.".toList) none])] }

set_option maxRecDepth 10000 in
theorem site_loads_as_fetched :
    let text := LoadRequest.ofText page "https://h/a.gpt" "" "" LoaderSettings.initial
    let fetched := LoadRequest.ofLocation "https://h/a.gpt" "" "" LoaderSettings.initial
    (run text site).result.toOption.map (·.tools.keys) =
        some ["https://h/a.gpt:1", "https://h/b.gpt:1"] ∧
      (run fetched site).world.requests = ["https://h/a.gpt", "https://h/b.gpt"].map String.toList ∧
      SameButFirst text fetched site "https://h/a.gpt".toList (Text.encode page.toList) := by
  have unspaced : ("https://h/a.gpt".toList.all fun c => !Text.isBlank c) = true := by
    decide +kernel
  have proper : site.IsProper "https://h/a.gpt" := by
    refine ⟨by decide +kernel, by decide +kernel, fun c member => ?_⟩
    simpa using List.all_eq_true.mp unspaced c member
  have written : Url.sent "https://h/a.gpt".toList = .ok "https://h/a.gpt".toList := by
    decide +kernel
  have holds : site.Holds "https://h/a.gpt".toList (Text.encode page.toList) := by
    refine .url (by decide +kernel) written ⟨_, _, rfl, ?_⟩
    intro reply member
    exact ⟨none, List.eq_of_mem_replicate (n := 2) member⟩
  exact ⟨by decide +kernel, by decide +kernel,
    text_loads_as_fetched "" "" LoaderSettings.initial proper holds rfl rfl⟩

end Load
end ToolGraph
