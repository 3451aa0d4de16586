import Mathlib.Data.Bool.AllAny
import ToolGraph.Proofs.Found
import ToolGraph.Proofs.Load.Fetched
import ToolGraph.Proofs.Load.Linked
import ToolGraph.Proofs.Url.Web

/-!
The spellings of a file of a repository: the reference to it, the page that shows it and the URL under
which it lies. All of them have that URL for their canonical location, so that a load that comes upon the
file in several spellings fetches it once.
-/
namespace ToolGraph
open Text

/-- A file of a repository at a version, which may be written with slashes. -/
structure RepositoryFile where
  owner : List Char
  repository : List Char
  version : List Char
  path : List (List Char)

namespace RepositoryFile

def names (file : RepositoryFile) : List (List Char) := file.owner :: file.repository :: file.path

/-- White space and the marks that end a path stand in no part of a file, and only the version has
slashes. -/
structure IsProper (file : RepositoryFile) : Prop where
  given : file.path ≠ []
  filled : ∀ part ∈ file.version :: file.names, part ≠ []
  plain : ∀ part ∈ file.version :: file.names, ∀ c ∈ part,
    isBlank c = false ∧ c ≠ '@' ∧ c ≠ '?' ∧ c ≠ '#'
  inner : ∀ name ∈ file.names, '/' ∉ name

def url (file : RepositoryFile) : List Char :=
  Canonical.rawUrl file.owner file.repository file.version (joinWith ['/'] file.path)

def pagePath (file : RepositoryFile) : List Char :=
  joinWith ['/'] (file.owner :: file.repository :: "blob".toList :: file.version :: file.path)

/-- The ways to write where the file is, with any number of slashes behind the path. -/
inductive Spelling (file : RepositoryFile) : List Char → Prop where
  | reference (slashes : Nat) :
      Spelling file ("github.com/".toList ++ joinWith ['/'] file.names ++
        List.replicate slashes '/' ++ '@' :: file.version)
  | page {scheme host : List Char} (web : Url.IsWebScheme scheme)
      (shows : host ∈ Canonical.pageHosts) (slashes : Nat) :
      Spelling file (Url.webText scheme host
        ('/' :: file.pagePath ++ List.replicate slashes '/'))
  | raw : Spelling file file.url

section spellings
variable {file : RepositoryFile} {place : Canonical.Place} {text : List Char}

theorem IsProper.ofRepository? (proper : file.IsProper) (slashes : Nat) :
    Canonical.ofRepository? ("github.com/".toList ++ joinWith ['/'] file.names ++
      List.replicate slashes '/' ++ '@' :: file.version) = some file.url := by
  let path := joinWith ['/'] file.names ++ List.replicate slashes '/'
  have parts : "github.com/".toList ++ joinWith ['/'] file.names ++ List.replicate slashes '/' ++
      '@' :: file.version = "github.com/".toList ++ (path ++ '@' :: file.version) := by
    simp only [path, List.append_assoc]
  have free : '@' ∉ path := by
    intro member
    rcases List.mem_append.mp member with named | slash
    · rcases mem_joinWith named with other | ⟨part, known, inside⟩
      · cases other
      · exact (proper.plain part (List.mem_cons_of_mem _ known) _ inside).2.1 rfl
    · cases List.eq_of_mem_replicate slash
  have split : splitAt '/' (joinWith ['/'] file.names) = file.names :=
    splitAt_joinWith (by simp [names]) proper.inner
  have found : (splitAt '/' path).filter (!·.isEmpty) =
      file.owner :: file.repository :: file.path := by
    have same := names_append_slashes (joinWith ['/'] file.names) slashes
    rw [Text.names, Text.names, split] at same
    refine same.trans (List.filter_eq_self.mpr fun name member => ?_)
    simpa using proper.filled name (List.mem_cons_of_mem _ member)
  have version : file.version.isEmpty = false := by
    simpa using proper.filled file.version List.mem_cons_self
  have given : file.path.isEmpty = false := by simpa using proper.given
  rw [parts]
  unfold Canonical.ofRepository?
  simp only [List.drop_left', String.length_toList, cutAt_append free, found, version, given,
    Bool.false_eq_true, if_false, url]

theorem IsProper.trim_page (proper : file.IsProper) (slashes : Nat) :
    trimWhile (· == '/') ('/' :: file.pagePath ++ List.replicate slashes '/') = file.pagePath := by
  obtain ⟨c, owner, first⟩ := List.exists_cons_of_ne_nil (proper.filled file.owner (by simp [names]))
  have start : c ≠ '/' := by
    rintro rfl
    exact proper.inner file.owner (by simp [names]) (first ▸ List.mem_cons_self)
  obtain ⟨front, name, last⟩ := (List.eq_nil_or_concat file.path).resolve_left proper.given
  have member : name ∈ file.names := by simp [names, last]
  have ends : ∀ d ∈ file.pagePath.getLast?, (d == '/') = false := by
    have named : file.pagePath = joinWith ['/'] (file.owner :: file.repository :: "blob".toList ::
        file.version :: front) ++ '/' :: name := by
      rw [pagePath, last, ← Path.joinWith_concat (by simp)]
      simp
    intro d final
    have filled := proper.filled name (List.mem_cons_of_mem _ member)
    rw [named, List.getLast?_append_of_ne_nil _ (by simp),
      List.getLast?_cons_of_ne_nil filled] at final
    simpa using ne_of_mem_of_not_mem (List.mem_of_getLast? final) (proper.inner name member)
  have begins : (file.pagePath ++ List.replicate slashes '/').dropWhile (· == '/') =
      file.pagePath ++ List.replicate slashes '/' := by
    have shape : ∃ rest, file.pagePath = c :: rest := by
      rw [pagePath, first]
      exact ⟨_, rfl⟩
    obtain ⟨rest, shape⟩ := shape
    rw [shape, List.cons_append, List.dropWhile_cons_of_neg (by simpa using start)]
  have drops : dropEndWhile (· == '/') (List.replicate slashes '/') = [] := by
    simp [dropEndWhile]
  rw [trimWhile, List.cons_append, List.dropWhile_cons_of_pos (by simp), begins,
    dropEndWhile_append_kept ends, drops, List.append_nil]

/-- The names on the way to a page. A version with slashes is one of several names. -/
theorem IsProper.splitAt_page (proper : file.IsProper) : ∃ first more,
    splitAt '/' file.pagePath =
      file.owner :: file.repository :: "blob".toList :: first :: (more ++ file.path) ∧
    joinWith ['/'] (first :: more) = file.version := by
  obtain ⟨first, more, split⟩ := List.exists_cons_of_ne_nil (splitAt_ne_nil '/' file.version)
  refine ⟨first, more, ?_, split ▸ joinWith_splitAt '/' file.version⟩
  have path : splitAt '/' (joinWith ['/'] file.path) = file.path :=
    splitAt_joinWith proper.given fun name member =>
      proper.inner name (List.mem_cons_of_mem _ (List.mem_cons_of_mem _ member))
  have front : splitAt '/' (joinWith ['/'] [file.owner, file.repository, "blob".toList]) =
      [file.owner, file.repository, "blob".toList] := by
    refine splitAt_joinWith (by simp) fun name member => ?_
    simp only [List.mem_cons, List.not_mem_nil, or_false] at member
    rcases member with rfl | rfl | rfl
    · exact proper.inner file.owner (by simp [names])
    · exact proper.inner file.repository (by simp [names])
    · decide
  calc
    splitAt '/' file.pagePath = splitAt '/' (joinWith ['/'] [file.owner, file.repository, "blob".toList] ++
        '/' :: (file.version ++ '/' :: joinWith ['/'] file.path)) := by
      have version := Path.joinWith_append (List.cons_ne_nil file.version []) proper.given
      have whole := Path.joinWith_append
        (List.cons_ne_nil file.owner [file.repository, "blob".toList])
        (List.cons_ne_nil file.version file.path)
      exact congrArg _ (whole.trans (congrArg _ (congrArg _ version)))
    _ = _ := by rw [splitAt_append_mark, splitAt_append_mark, front, split, path]; rfl

theorem IsProper.page_plain (proper : file.IsProper) {slashes : Nat} {c : Char}
    (member : c ∈ '/' :: file.pagePath ++ List.replicate slashes '/') :
    isBlank c = false ∧ c ≠ '?' ∧ c ≠ '#' := by
  have slash : isBlank '/' = false ∧ '/' ≠ '?' ∧ '/' ≠ '#' := by decide
  simp only [List.mem_append, List.mem_cons] at member
  rcases member with (rfl | inside) | behind
  · exact slash
  · rcases mem_joinWith inside with rfl | ⟨part, known, own⟩
    · exact slash
    · have known : part = "blob".toList ∨ part ∈ file.version :: file.names := by
        simp only [List.mem_cons, names] at known ⊢
        tauto
      rcases known with rfl | known
      · have each : ∀ d ∈ "blob".toList, isBlank d = false ∧ d ≠ '?' ∧ d ≠ '#' :=
          List.all_iff_forall_prop.mp (by decide)
        exact each c own
      · obtain ⟨unspaced, -, noQuery, noFragment⟩ := proper.plain part known c own
        exact ⟨unspaced, noQuery, noFragment⟩
  · exact List.eq_of_mem_replicate behind ▸ slash

theorem isErased_of_isBlank {c : Char} (unspaced : isBlank c = false) : Url.isErased c = false := by
  by_contra erased
  simp only [Url.isErased, Bool.or_eq_true, beq_iff_eq, Bool.not_eq_false, or_assoc] at erased
  rcases erased with rfl | rfl | rfl <;> simp [isBlank, blankRanges, inRanges] at unspaced

theorem IsProper.isWeb_page (proper : file.IsProper) {scheme host : List Char}
    (web : Url.IsWebScheme scheme) (shows : host ∈ Canonical.pageHosts) (slashes : Nat) :
    Url.IsWeb scheme host ('/' :: file.pagePath ++ List.replicate slashes '/') := by
  have known : Canonical.pageHosts.all (fun host => Url.checkAuthority host = .ok () &&
      (host.all (!Url.endsAuthority ·) && host.all (!Url.isErased ·))) = true := by decide
  obtain ⟨checked, inside, kept⟩ : Url.checkAuthority host = .ok () ∧
      (∀ c ∈ host, Url.endsAuthority c = false) ∧ ∀ c ∈ host, Url.isErased c = false := by
    simpa using List.all_eq_true.mp known host shows
  refine ⟨web, checked, inside, ?_, ⟨?_, ?_⟩, by simp⟩
  · intro c member
    rcases List.mem_append.mp member with own | behind
    · exact kept c own
    · exact isErased_of_isBlank (proper.page_plain behind).1
  · exact fun member => (proper.page_plain member).2.1 rfl
  · exact fun member => (proper.page_plain member).2.2 rfl

theorem IsProper.ofUrl_page (proper : file.IsProper) {scheme host : List Char}
    (web : Url.IsWebScheme scheme) (shows : host ∈ Canonical.pageHosts) (slashes : Nat) :
    Canonical.ofUrl (Url.webText scheme host ('/' :: file.pagePath ++ List.replicate slashes '/')) =
      .ok file.url := by
  obtain ⟨first, more, split, version⟩ := proper.splitAt_page
  obtain ⟨segment, segments, path⟩ := List.exists_cons_of_ne_nil
    (List.append_ne_nil_of_right_ne_nil more proper.given)
  have same : Canonical.rawUrl file.owner file.repository first (joinWith ['/'] (segment :: segments)) =
      file.url := by
    have parts : joinWith ['/'] (first :: segment :: segments) =
        file.version ++ '/' :: joinWith ['/'] file.path := by
      rw [← path, ← List.cons_append, Path.joinWith_append (List.cons_ne_nil first more) proper.given,
        version]
    have parts : first ++ ['/'] ++ joinWith ['/'] (segment :: segments) =
        file.version ++ ['/'] ++ joinWith ['/'] file.path := by
      simpa [joinWith] using parts
    simp only [url, Canonical.rawUrl, joinWith, List.append_assoc] at parts ⊢
    rw [parts]
  have shows : Canonical.pageHosts.contains host = true := List.contains_iff_mem.mpr shows
  simp only [Canonical.ofUrl, (proper.isWeb_page web (List.contains_iff_mem.mp shows) slashes).split,
    proper.trim_page, split, path, shows, bind, Except.bind, pure, Except.pure, and_self, if_true, same]

theorem IsProper.location (proper : file.IsProper) (spelled : file.Spelling text) :
    Canonical.location place text = .ok file.url := by
  cases spelled with
  | reference slashes =>
    have repository : Location.isRepository ("github.com/".toList ++ joinWith ['/'] file.names ++
        List.replicate slashes '/' ++ '@' :: file.version) = true := rfl
    rw [Canonical.location, if_pos repository, proper.ofRepository?]
  | @page scheme host web shows slashes =>
    obtain ⟨isUrl, noRepository⟩ := Location.isUrl_webText web host
      ('/' :: file.pagePath ++ List.replicate slashes '/')
    rw [Canonical.location, if_neg (Bool.eq_false_iff.mp noRepository), if_pos isUrl,
      proper.ofUrl_page web shows slashes]
  | raw =>
    obtain ⟨rest, same⟩ := Canonical.rawUrl_eq file.owner file.repository file.version
      (joinWith ['/'] file.path)
    rw [url, same]
    exact (Canonical.location_rawHost rest).2

theorem Spelling.isAbsolute (spelled : file.Spelling text) : Location.isAbsolute text = true := by
  cases spelled with
  | reference slashes => rfl
  | @page scheme host web shows slashes =>
    have isUrl := (Location.isUrl_webText web host
      ('/' :: file.pagePath ++ List.replicate slashes '/')).1
    simp only [Location.isAbsolute, isUrl, Bool.true_or]
  | raw => rfl

theorem Spelling.isReference (spelled : file.Spelling text) :
    Builtin.isReference (String.ofList text) = false := by
  rw [Builtin.isReference, String.toList_ofList]
  cases spelled with
  | reference slashes => rfl
  | page web shows slashes => rcases web with rfl | rfl <;> rfl
  | raw => rfl

end spellings
end RepositoryFile

namespace Load
variable {file : RepositoryFile} {request : LoadRequest}

/-! ### Where the spellings lead -/

/-- A reference in a spelling of the file leads to its URL, wherever it is found and whatever tool of the
file it names, unless it is the name of a tool of its own source. -/
theorem find_spelled (request : LoadRequest) (proper : file.IsProper) (place : Canonical.Place) {tool : Tool}
    {reference : String} (spelled : file.Spelling (Reference.read reference).source.toList)
    (foreign : Destination.sibling? tool reference (Reference.read reference) = none) :
    Destination.find (request.contextAt place).outlook tool reference =
      .ok (.source file.url (Reference.read reference).subTool) := by
  have written : (Reference.read reference).source.isEmpty = false := by
    rw [← Bool.not_eq_true, isEmpty_eq_true]
    intro empty
    rw [empty] at spelled
    have absolute := spelled.isAbsolute
    contradiction
  have other := spelled.isReference
  rw [String.ofList_toList] at other
  simp only [Destination.find, written, foreign, other, Bool.and_false, Bool.false_eq_true, if_false,
    Outlook.locate, Location.join, spelled.isAbsolute, if_true, LoadRequest.contextAt,
    proper.location spelled]

/-- A request asks for a file: its root is in a spelling of the file, or a reference is that some tool
has, and the content of the file is not given with the request. -/
structure AsksFor (request : LoadRequest) (load : Load) (file : RepositoryFile) : Prop where
  notGiven : ∀ content location, request.root = .text content location → location.toList ≠ file.url
  written : (∃ text, request.root = .reference text ∧
      file.Spelling (Reference.read text).source.toList) ∨
    ∃ origin tool reference, Refers load origin tool reference ∧
      file.Spelling (Reference.read reference).source.toList ∧
      Destination.sibling? tool reference (Reference.read reference) = none

theorem Whole.source?_url (proper : file.IsProper) {place : Canonical.Place} {answers : Answers}
    {root : List Char} {first : Source} {load : Load}
    (read : RootRead request place answers root first)
    (whole : load.Whole (request.contextAt place) answers root first)
    (asks : AsksFor request load file) : ∃ source, load.source? file.url = some source := by
  rcases asks.written with ⟨text, rooted, spelled⟩ | ⟨origin, tool, reference, refers, spelled, foreign⟩
  · obtain ⟨fetched, ⟨located, -⟩, -⟩ := read
    simp only [LoadRequest.rootLocation, rooted, Outlook.locate, Location.join, spelled.isAbsolute,
      if_true, LoadRequest.contextAt, proper.location spelled, Except.ok.injEq] at located
    exact ⟨first, located ▸ whole.sound.rooted⟩
  · obtain ⟨location, source, found, -, member⟩ := refers
    obtain ⟨target, -, resolves⟩ := whole.resolves found member
    have leads := find_spelled request proper place spelled foreign
    obtain ⟨source, known, -⟩ := resolves.of_source leads
    exact ⟨source, known⟩

/-! ### Fetches -/

theorem drain_answered {context : LoadContext} {root : List Char} {first : Source} {bound peak : Nat}
    {load later : Load} {world : World} {locations : List (List Char)}
    (part : drainLocations request context bound load world ⊆ locations)
    (sound : load.resting.Sound context (fun location _ => location ∈ locations) root first)
    (idle : Idle load) (drained : (drain request context bound peak load world).1 = .ok later) :
    Steps context (fun location _ => location ∈ locations) load.resting later.resting := by
  induction bound generalizing peak load world with
  | zero =>
    simp only [drain] at drained
    split at drained
    · exact Except.ok.inj drained ▸ .refl
    · cases drained
  | succ bound ih =>
    simp only [drain, drainLocations] at drained part
    cases awaited : load.pending with
    | nil =>
      simp only [awaited] at drained
      exact Except.ok.inj drained ▸ .refl
    | cons location rest =>
      simp only [awaited] at drained part
      cases delivered : load.deliver context location
          (Fetch.location request.patience location world).1 with
      | error error => simp [delivered] at drained
      | ok next =>
        simp only [delivered] at drained part
        obtain ⟨member, part⟩ := List.cons_subset.mp part
        have moved := @deliver_steps context (fun location _ => location ∈ locations) load location
          (Fetch.location request.patience location world).1 sound.load.apart idle
          (awaited ▸ List.mem_cons_self) member
        rw [delivered] at moved
        obtain ⟨idle, steps⟩ := moved
        exact steps.trans (ih part (sound.steps steps) idle drained)

theorem drain_of_complete {world : World} {load : Load} {entry : String}
    (completed : (complete request world).1 = .ok (load, entry)) :
    request.isOver = false ∧ ∃ location fetched later rested peak,
      request.fetchRoot world = (.ok (location, fetched), later) ∧
      begin request (request.context world) location fetched = .ok (rested, entry) ∧
      (drain request (request.context world) (sourceBound world) peak rested later).1 = .ok load := by
  unfold complete at completed
  split at completed
  next => cases completed
  next early =>
    refine ⟨Bool.eq_false_iff.mpr early, ?_⟩
    split at completed
    next => cases completed
    next location fetched later found =>
      simp only at completed
      split at completed
      next => cases completed
      next rested own begun =>
        obtain ⟨done, drained, same⟩ := map_eq_ok.mp completed
        obtain ⟨rfl, rfl⟩ := Prod.mk.inj same
        exact ⟨location, fetched, later, rested, _, found, begun, drained⟩

theorem mem_rootFetches_root {context : LoadContext} {root : List Char}
    (located : request.rootLocation context = .ok root)
    (notGiven : ∀ content place, request.root = .text content place → place.toList ≠ root) :
    root ∈ rootFetches request root := by
  unfold rootFetches
  split
  next content place text =>
    simp only [LoadRequest.rootLocation, text, Except.ok.injEq] at located
    exact absurd located (notGiven content place text)
  next => exact List.mem_singleton_self root

theorem fetches_of_complete {world : World} {load : Load} {entry : String}
    (completed : (complete request world).1 = .ok (load, entry)) :
    ∃ locations, Fetches request world locations ∧ ∀ {location source},
      load.source? location = some source →
      (∀ content place, request.root = .text content place → place.toList ≠ location) →
      location ∈ locations := by
  obtain ⟨early, root, fetched, later, rested, peak, found, begun, drained⟩ :=
    drain_of_complete completed
  obtain ⟨⟨located, answer⟩, past⟩ := rootFound_of_fetchRoot found
  have after := fetchRoot_fetches located
  have runs := run_of_root early found
  rw [found] at after
  rw [begun] at runs
  let rest := drainLocations request (request.context world) (sourceBound world) rested later
  obtain ⟨apart, other, needed⟩ := begin_fetches (sourceBound world) ⟨located, answer⟩ past begun
  refine ⟨_, fetches_of_root located (after ▸ runs.2) apart other needed, ?_⟩
  obtain ⟨first, -, -, idle, begins⟩ := @begin_steps request (request.context world)
    (fun location _ => location ∈ rest) root fetched rested entry begun
  have sound := (Progress.sound_rooted _ _ root first).steps begins
  have ends := drain_answered (List.Subset.refl rest) sound idle drained
  intro location source known notGiven
  by_cases same : location = root
  · subst same
    exact List.mem_append_left rest (mem_rootFetches_root located notGiven)
  · obtain ⟨answered, member, -⟩ := (sound.steps ends).load.read known same
    exact List.mem_append_right _ member

/-- Every spelling of a file has the URL of the file for its canonical location, which is its own. So a
load, in whatever order its tasks go on, calls for the file at most once, and so does the loader; once it
is if some reference asks for the file and the load comes to its end. -/
theorem spellings_fetched_once (proper : file.IsProper) :
    (∀ place text, file.Spelling text → Canonical.location place text = .ok file.url) ∧
      (∀ {request place answers root first calls answered state},
        RootRead request place answers root first →
        Traced (request.contextAt place) answers (Progress.rooted root first) calls answered state →
        let fetched := rootFetches request root ++ calls.map Call.location
        fetched.count file.url ≤ 1 ∧
          (state.IsDone → AsksFor request state.load file → fetched.count file.url = 1)) ∧
      ∀ request world, ∃ locations, Fetches request world locations ∧
        locations.count file.url ≤ 1 ∧ ∀ {load entry}, (complete request world).1 = .ok (load, entry) →
          AsksFor request load file → locations.count file.url = 1 := by
  refine ⟨fun _ _ => proper.location, ?_, ?_⟩
  · intro request place answers root first calls answered state read trace
    have sound := (Progress.sound_rooted _ _ root first).steps trace.steps
    have known := trace.ledger.known
    have apart : (root :: calls.map Call.location).Nodup := known ▸ sound.load.apart
    have part : (rootFetches request root ++ calls.map Call.location).Sublist
        (root :: calls.map Call.location) := by
      unfold rootFetches
      split
      · exact List.sublist_cons_self _ _
      · exact List.Sublist.refl _
    refine ⟨List.nodup_iff_count_le_one.mp (apart.sublist part) _, ?_⟩
    intro done asks
    obtain ⟨source, found⟩ := (whole_of_steps read trace.steps done).source?_url proper read asks
    have member := known ▸ mem_keys_of_source? found
    refine List.count_eq_one_of_mem (apart.sublist part) ?_
    rcases List.mem_cons.mp member with rfl | later
    · obtain ⟨fetched, ⟨located, -⟩, -⟩ := read
      exact List.mem_append_left _ (mem_rootFetches_root located asks.notGiven)
    · exact List.mem_append_right _ later
  · intro request world
    cases completed : (complete request world).1 with
    | error error =>
      obtain ⟨locations, fetches⟩ := run_fetches request world
      refine ⟨locations, fetches, List.nodup_iff_count_le_one.mp fetches.apart _, ?_⟩
      intro load entry done
      cases done
    | ok done =>
      obtain ⟨load, entry⟩ := done
      obtain ⟨locations, fetches, all⟩ := fetches_of_complete completed
      refine ⟨locations, fetches, List.nodup_iff_count_le_one.mp fetches.apart _, ?_⟩
      intro load' entry' done asks
      obtain ⟨rfl, rfl⟩ := Prod.mk.inj (Except.ok.inj done)
      obtain ⟨root, first, read, -, whole⟩ := (completes_of_complete completed).whole
      obtain ⟨source, found⟩ := whole.source?_url proper read asks
      exact List.count_eq_one_of_mem fetches.apart (all found asks.notGiven)

/-- A file that refers to itself in other spellings. -/
def mirrored : World :=
  { World.ofFiles "/work" [] with
    web := [("https://raw.githubusercontent.com/o/r/v/1/t".toList,
      [.answer 200 (Text.encode ("tools: https://www.github.com/o/r/blob/v/1/t//, " ++
        "github.com/o/r/t/@v/1\n\nGo on.").toList) none])] }

set_option maxRecDepth 10000 in
theorem mirrored_fetched_once :
    let file : RepositoryFile := ⟨"o".toList, "r".toList, "v/1".toList, ["t".toList]⟩
    let request := LoadRequest.of "github.com/o/r/t@v/1"
    file.IsProper ∧ (run request mirrored).world.requests = [file.url] ∧
      ∃ locations, Fetches request mirrored locations ∧ locations.count file.url = 1 := by
  intro file request
  have plain : (file.version :: file.names).all (fun part =>
      part.all fun c => isBlank c = false ∧ c ≠ '@' ∧ c ≠ '?' ∧ c ≠ '#') = true := by decide
  have proper : file.IsProper := ⟨by decide, by decide,
    fun part member => List.all_iff_forall_prop.mp (List.all_eq_true.mp plain part member), by decide⟩
  have ran : (complete request mirrored).1.toOption.isSome = true ∧
      (run request mirrored).world.requests = [file.url] := by
    decide +kernel
  obtain ⟨locations, fetches, -, once⟩ := (spellings_fetched_once proper).2.2 request mirrored
  refine ⟨proper, ran.2, locations, fetches, ?_⟩
  cases completed : (complete request mirrored).1 with
  | error error => simp [completed, Except.toOption] at ran
  | ok done =>
    obtain ⟨load, entry⟩ := done
    have spelled : file.Spelling (Reference.read "github.com/o/r/t@v/1").source.toList := by
      have same : (Reference.read "github.com/o/r/t@v/1").source.toList =
          "github.com/".toList ++ joinWith ['/'] file.names ++ List.replicate 0 '/' ++
            '@' :: file.version := by decide
      exact same ▸ .reference 0
    exact once completed ⟨by simp [request, LoadRequest.of], .inl ⟨_, rfl, spelled⟩⟩

end Load
end ToolGraph
