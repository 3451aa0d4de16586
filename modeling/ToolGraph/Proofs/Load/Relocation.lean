import ToolGraph.Proofs.Load.Moved

/-!
A tree of files can be moved. Requests for the same path below two directories that hold the same
files find the same root, from which each comes to its end if the other does.
-/
namespace ToolGraph.Load
open Entries ToolGraph.Path

/-! ### Requests that only time can stop -/

/-- A request that has a root with an entry tool, and of which nothing fails. -/
structure Unhindered (request : LoadRequest) (place : Canonical.Place) (answers : Answers) :
    Prop where
  located : ∃ location, request.rootLocation (request.contextAt place) = .ok location
  read : ∀ {location result}, RootFound request place answers location result →
    ∃ source, result.bind (Source.read (request.contextAt place).base
      (request.contextAt place).model) = .ok source
  selected : ∀ {location source}, RootRead request place answers location source →
    ∃ entry, source.select request.subToolName = .ok entry
  unfailing : ∀ {state}, Reaches request place answers state → state.failures = []

section unhindered
variable {request : LoadRequest} {place : Canonical.Place} {answers : Answers}
  {result : Except Error Program}

theorem Unhindered.outcome (free : Unhindered request place answers)
    (outcome : Outcome request place answers result) :
    (request.settings.timeout.isSome ∧ result = .error (timeUp request)) ∨
      ∃ load entry, Completes request place answers load entry ∧
        result = .ok (load.program request.name entry) := by
  cases outcome with
  | late timed => exact .inl ⟨timed, rfl⟩
  | noLocation refused =>
    obtain ⟨location, located⟩ := free.located
    simp [refused] at located
  | noRoot found refused =>
    obtain ⟨source, read⟩ := free.read found
    simp [refused] at read
  | noEntry read refused =>
    obtain ⟨entry, selected⟩ := free.selected read
    simp [refused] at selected
  | failed reached raised =>
    obtain ⟨origin, cause, failure⟩ := raised.exists_failure
    rw [free.unfailing reached] at failure
    exact absurd failure List.not_mem_nil
  | completed done => exact .inr ⟨_, _, done, rfl⟩

theorem Unhindered.ends {world : World} {locations : List (List Char)}
    (free : Unhindered request world.place (world.answers request)) (early : request.isOver = false)
    (ends : Ends request world locations result) :
    ∃ load entry, Completes request world.place (world.answers request) load entry ∧
      result = .ok (load.program request.name entry) := by
  cases ends with
  | noRoot refused =>
    rcases refused_of_fetchRoot refused with refused | ⟨location, found⟩
    · obtain ⟨location, located⟩ := free.located
      exact absurd (located.symm.trans refused) (by simp)
    · obtain ⟨source, read⟩ := free.read found
      cases read
  | unread found refused =>
    obtain ⟨source, read⟩ := free.read (rootFound_of_fetchRoot found).1
    exact absurd (read.symm.trans refused) (by simp)
  | noEntry opens refused =>
    obtain ⟨entry, selected⟩ := free.selected opens.read.1
    simp [refused] at selected
  | failed opens selected turns raised =>
    obtain ⟨origin, cause, failure⟩ := raised.exists_failure
    rw [free.unfailing (turns.reaches opens selected)] at failure
    exact absurd failure List.not_mem_nil
  | completed opens selected turns done =>
    obtain ⟨read, past⟩ := opens.read
    exact ⟨_, _, ⟨early, _, _, _, read, selected, turns.answered past, done, rfl⟩, rfl⟩

end unhindered

/-! ### Requests for the same path -/

structure Counterparts (files : List (List Char) → Option Bytes) (request request' : LoadRequest)
    (world world' : World) (dir dir' : List Char) (names : List (List Char)) : Prop where
  holds : world.files.HoldsBelow dir files
  holds' : world'.files.HoldsBelow dir' files
  tree : IsTree request.settings.defaultModel files
  settings : request'.settings = request.settings
  subTool : request'.subToolName = request.subToolName
  written : ∃ text, request.root = .reference text
  written' : ∃ text, request'.root = .reference text
  each : AreNames names
  located : request.rootLocation (request.context world) =
    .ok (under dir (world.files.enter dir names))
  located' : request'.rootLocation (request'.context world') =
    .ok (under dir' (world'.files.enter dir' names))
  name : rebase dir dir' request.name = request'.name
  name' : rebase dir' dir request'.name = request.name

namespace Counterparts
variable {files : List (List Char) → Option Bytes} {request request' : LoadRequest}
  {world world' : World} {dir dir' : List Char} {names : List (List Char)} {root : List Char}
  {first : Source} {state : Progress}

theorem symm (same : Counterparts files request request' world world' dir dir' names) :
    Counterparts files request' request world' world dir' dir names where
  holds := same.holds'
  holds' := same.holds
  tree := same.settings ▸ same.tree
  settings := same.settings.symm
  subTool := same.subTool.symm
  written := same.written'
  written' := same.written
  each := same.each
  located := same.located'
  located' := same.located
  name := same.name'
  name' := same.name

variable (same : Counterparts files request request' world world' dir dir' names)
include same

theorem answers_of_root {location : List Char} {result : Except Error Fetched}
    (found : RootFound request world.place (world.answers request) location result) :
    location = under dir (world.files.enter dir names) ∧ world.answers request location result := by
  obtain ⟨located, answer⟩ := found
  obtain ⟨text, written⟩ := same.written
  refine ⟨Except.ok.inj (located.symm.trans same.located), ?_⟩
  unfold RootAnswers at answer
  rwa [written] at answer

theorem root_eq (read : RootRead request world.place (world.answers request) root first) :
    root = under dir (world.files.enter dir names) := by
  obtain ⟨fetched, found, -⟩ := read
  exact (same.answers_of_root found).1

theorem inTree (read : RootRead request world.place (world.answers request) root first)
    (steps : Steps (request.context world) (world.answers request) (Progress.rooted root first)
      state) : state.load.InTree request world dir root first := by
  obtain ⟨text, written⟩ := same.written
  exact inTree_of_steps same.holds same.tree written read ⟨names, same.each, same.root_eq read⟩ steps

theorem exists_plain (read : RootRead request world.place (world.answers request) root first) :
    ∃ content plain, files (world.files.settle dir names) = some content ∧
      Source.Holds request.settings.defaultModel content plain ∧
      first = plain.placed dir (world.files.settle dir names) := by
  have inTree := same.inTree read .refl
  have rooted := inTree.sound.rooted
  rw [same.root_eq read] at rooted inTree
  exact inTree.exists_placed same.holds same.tree same.each rooted

theorem read_root (read : RootRead request world.place (world.answers request) root first)
    {location : List Char} {result : Except Error Fetched}
    (found : RootFound request' world'.place (world'.answers request') location result) :
    ∃ first', result.bind (Source.read (request'.contextAt world'.place).base
        (request'.contextAt world'.place).model) = .ok first' ∧
      ∀ {name target}, first.select name = .ok target →
        first'.select name = .ok (rebase dir dir' target) := by
  obtain ⟨content, plain, held, defines, rfl⟩ := same.exists_plain read
  obtain ⟨-, settled⟩ := same.holds'.settle_eq same.each (Option.isSome_of_eq_some held)
  obtain ⟨rfl, answer⟩ := same.symm.answers_of_root found
  refine ⟨plain.placed dir' (world.files.settle dir names), ?_, ?_⟩
  · rw [← settled] at held ⊢
    rw [← same.settings] at defines
    exact read_of_answers same.holds' same.each held defines answer _
  · intro name target selected
    exact Source.select_rebase same.holds.normal same.holds'.normal
      (FileTree.areNames_settle same.each) (same.holds.ne_nil held) selected

theorem moved (read : RootRead request world.place (world.answers request) root first)
    (steps : Steps (request.context world) (world.answers request) (Progress.rooted root first)
      state) (finished : state.IsDone) {root' : List Char} {first' : Source} {state' : Progress}
    (read' : RootRead request' world'.place (world'.answers request') root' first')
    (steps' : Steps (request'.context world') (world'.answers request')
      (Progress.rooted root' first') state') :
    Moved files request request' world world' dir dir' root root' first first' state.load
      state'.load where
  holds := same.holds
  holds' := same.holds'
  tree := same.tree
  model := congrArg LoaderSettings.defaultModel same.settings
  whole := whole_of_steps read steps finished
  inTree := same.inTree read steps
  inTree' := same.symm.inTree read' steps'
  root := ⟨names, same.each, same.root_eq read, same.symm.root_eq read'⟩

section completed
variable {load : Load} {entry : String}
  (done : Completes request world.place (world.answers request) load entry)
include done

theorem unhindered : Unhindered request' world'.place (world'.answers request') := by
  obtain ⟨-, root, first, state, read, selected, steps, finished, rfl⟩ := done
  refine ⟨⟨_, same.located'⟩, ?_, ?_, ?_⟩
  · intro location result found
    obtain ⟨first', read', -⟩ := same.read_root read found
    exact ⟨first', read'⟩
  · rintro location source ⟨fetched, found, read'⟩
    obtain ⟨first', read'', select⟩ := same.read_root read found
    obtain rfl := Except.ok.inj (read'.symm.trans read'')
    exact ⟨_, same.subTool ▸ select selected⟩
  · rintro state' ⟨root', first', read', -, steps'⟩
    have moved := same.moved read steps finished read' steps'
    have sound := (Progress.sound_rooted _ _ root' first').steps steps'
    refine List.eq_nil_iff_forall_not_mem.mpr fun failure member => ?_
    obtain ⟨tool, reference, refers, fails⟩ := sound.failures member
    exact moved.not_fails refers fails

theorem alike {load' : Load} {entry' : String}
    (done' : Completes request' world'.place (world'.answers request') load' entry') :
    ((load.program request.name entry).rebase dir dir').Alike
      (load'.program request'.name entry') := by
  obtain ⟨-, root, first, state, read, selected, steps, finished, rfl⟩ := done
  obtain ⟨-, root', first', state', read', selected', steps', finished', rfl⟩ := done'
  have moved := same.moved read steps finished read' steps'
  refine moved.alike (whole_of_steps read' steps' finished') same.name ?_
  obtain ⟨fetched, found, read'⟩ := read'
  obtain ⟨other, read'', select⟩ := same.read_root read found
  obtain rfl := Except.ok.inj (read'.symm.trans read'')
  rw [same.subTool, select selected] at selected'
  exact Except.ok.inj selected'

end completed

theorem exists_run {program : Program}
    (outcome : Outcome request world.place (world.answers request) (.ok program)) :
    ∃ program', (run request' world').result = .ok program' := by
  cases outcome with
  | completed done =>
    have free := same.unhindered done
    have early : request'.isOver = false := by
      rw [LoadRequest.isOver, same.settings]
      exact done.1
    have few : ∀ {state}, Reaches request' world'.place (world'.answers request') state →
        state.load.readLocations.length ≤ sourceBound world' := by
      rintro state ⟨root, first, read, -, steps⟩
      exact (same.symm.inTree read steps).few same.holds' same.symm.tree
    obtain ⟨locations, -, ends, -⟩ := run_ends_of_few early few
    obtain ⟨load, entry, -, returned⟩ := free.ends early ends
    exact ⟨_, returned⟩

end Counterparts

/-! ### A path below a directory -/

section requests
variable {world world' : World} {dir dir' path : List Char} {names : List (List Char)}
  (subTool base : String) (settings : LoaderSettings)

def requestBelow (dir path : List Char) (subTool base : String) (settings : LoaderSettings) :
    LoadRequest :=
  .ofLocation (String.ofList (join dir path)) subTool base settings

theorem read_join (rooted : Path.isAbsolute dir = true)
    (unspaced : ∀ c ∈ dir ++ path, Text.isBlank c = false) :
    Reference.read (String.ofList (join dir path)) = ⟨String.ofList (join dir path), ""⟩ := by
  have absolute := isAbsolute_join rooted path
  have other : ∀ word : String, Path.isAbsolute word.toList = false →
      String.ofList (join dir path) ≠ word := by
    rintro word relative rfl
    rw [String.toList_ofList, absolute] at relative
    cases relative
  refine Reference.read_of_unspaced (fun c member => ?_) (other "from" rfl) (other "with" rfl)
  rw [String.toList_ofList] at member
  rcases mem_join member with inside | rfl | inside
  · exact unspaced c (List.mem_append_left path inside)
  · decide
  · exact unspaced c (List.mem_append_right dir inside)

theorem rootLocation_requestBelow (normal : IsNormal dir) (relative : Path.isAbsolute path = false)
    (unspaced : ∀ c ∈ dir ++ path, Text.isBlank c = false)
    (inside : descend? [] path = some names) :
    (requestBelow dir path subTool base settings).rootLocation
        ((requestBelow dir path subTool base settings).context world) =
      .ok (under dir (world.files.enter dir names)) := by
  have absolute := isAbsolute_join normal.isAbsolute path
  have away : Location.isAbsolute (join dir path) = true := by simp [Location.isAbsolute, absolute]
  have target : Path.normalise (join dir path) = under dir names :=
    normalise_under normal (List.forall_mem_nil _) relative inside
  simp only [requestBelow, LoadRequest.rootLocation, LoadRequest.ofLocation,
    read_join normal.isAbsolute unspaced, Outlook.locate, String.toList_ofList, Location.join, away,
    if_true]
  exact World.canonical_of_normalise absolute target

theorem subToolName_requestBelow (rooted : Path.isAbsolute dir = true)
    (unspaced : ∀ c ∈ dir ++ path, Text.isBlank c = false) :
    (requestBelow dir path subTool base settings).subToolName = subTool := by
  simp only [requestBelow, LoadRequest.subToolName, LoadRequest.ofLocation,
    read_join rooted unspaced]
  split
  next empty => exact (String.isEmpty_iff.mp empty).symm
  next => rfl

end requests

/-! ### A tree in another place -/

/-- A request comes to a program if and only if another one does, and what they come to is the same
with one directory in the place of the other, unless their time is up. -/
structure SameElsewhere (dir dir' : List Char) (one two : LoadRequest) (world world' : World) :
    Prop where
  /-- The loader returns a program for both or for none. -/
  returns : (∃ program, (run one world).result = .ok program) ↔
    ∃ program, (run two world').result = .ok program
  /-- So it is for all orders of the tasks. -/
  outcomes : (∃ program, Outcome one world.place (world.answers one) (.ok program)) ↔
    ∃ program, Outcome two world'.place (world'.answers two) (.ok program)
  /-- Where some order comes to a program, all orders come to it, with the other directory. -/
  programs : ∀ {program result}, Outcome one world.place (world.answers one) (.ok program) →
    Outcome two world'.place (world'.answers two) result →
      (two.settings.timeout.isSome ∧ result = .error (timeUp two)) ∨
        ∃ program', result = .ok program' ∧ (program.rebase dir dir').Alike program'

theorem outcome_of_run {request : LoadRequest} {world : World} {program : Program}
    (ran : (run request world).result = .ok program) :
    Outcome request world.place (world.answers request) (.ok program) := by
  obtain ⟨load, entry, completed, rfl⟩ := run_eq_ok.mp ran
  exact .completed (completes_of_complete completed)

theorem Counterparts.sameElsewhere {files : List (List Char) → Option Bytes}
    {one two : LoadRequest} {world world' : World} {dir dir' : List Char}
    {names : List (List Char)} (same : Counterparts files one two world world' dir dir' names) :
    SameElsewhere dir dir' one two world world' := by
  refine ⟨⟨?_, ?_⟩, ⟨?_, ?_⟩, ?_⟩
  · rintro ⟨program, ran⟩
    exact same.exists_run (outcome_of_run ran)
  · rintro ⟨program, ran⟩
    exact same.symm.exists_run (outcome_of_run ran)
  · rintro ⟨program, outcome⟩
    obtain ⟨program', ran⟩ := same.exists_run outcome
    exact ⟨program', outcome_of_run ran⟩
  · rintro ⟨program, outcome⟩
    obtain ⟨program', ran⟩ := same.symm.exists_run outcome
    exact ⟨program', outcome_of_run ran⟩
  · intro program result outcome outcome'
    cases outcome with
    | completed done =>
      rcases (same.unhindered done).outcome outcome' with late | ⟨load, entry, done', rfl⟩
      · exact .inl late
      · exact .inr ⟨_, rfl, same.alike done done'⟩

/-- A tree of files whose references stay in it is loaded from every directory as from any other. -/
theorem tree_can_be_moved {files : List (List Char) → Option Bytes} {world world' : World}
    {dir dir' path : List Char} (subTool base : String) (settings : LoaderSettings)
    (holds : world.files.HoldsBelow dir files) (holds' : world'.files.HoldsBelow dir' files)
    (tree : IsTree settings.defaultModel files)
    (unspaced : ∀ c ∈ dir ++ path, Text.isBlank c = false)
    (unspaced' : ∀ c ∈ dir' ++ path, Text.isBlank c = false)
    (relative : Path.isAbsolute path = false) (inside : (descend? [] path).isSome) :
    SameElsewhere dir dir' (requestBelow dir path subTool base settings)
      (requestBelow dir' path subTool base settings) world world' := by
  obtain ⟨names, inside⟩ := Option.isSome_iff_exists.mp inside
  have normal := holds.normal
  have normal' := holds'.normal
  have same : Counterparts files (requestBelow dir path subTool base settings)
      (requestBelow dir' path subTool base settings) world world' dir dir' names :=
    { holds
      holds'
      tree
      settings := rfl
      subTool := by
        rw [subToolName_requestBelow subTool base settings normal.isAbsolute unspaced,
          subToolName_requestBelow subTool base settings normal'.isAbsolute unspaced']
      written := ⟨_, rfl⟩
      written' := ⟨_, rfl⟩
      each := areNames_of_descend (List.forall_mem_nil _) inside
      located := rootLocation_requestBelow subTool base settings normal relative unspaced inside
      located' := rootLocation_requestBelow subTool base settings normal' relative unspaced' inside
      name := rebase_join normal normal' relative
      name' := rebase_join normal' normal relative }
  exact same.sameElsewhere

/-- Pages that name one another through the directories above and below them, a page by its
directory, a tool of the same page and a built-in tool. -/
def pages : Entries (List (List Char)) Bytes :=
  [(["a.gpt".toList], Text.encode
      "tools: lib, helper, sys.read\n\nGo on.\n---\nname: helper\n\nHelp.".toList),
    (["lib".toList, "tool.gpt".toList], Text.encode "tools: ./sub/b.gpt\n\nGo down.".toList),
    (["lib".toList, "sub".toList, "b.gpt".toList], Text.encode
      "tools: helper from ../../a.gpt\n\nGo up.".toList)]

def pagesBelow (dir : String) : World :=
  { World.ofFiles "/work" [] with files := .planted dir.toList pages }

set_option maxRecDepth 10000 in
theorem pages_can_be_moved :
    let here := requestBelow "/p".toList "lib/../a.gpt".toList "" "" LoaderSettings.initial
    let there := requestBelow "/q/r".toList "lib/../a.gpt".toList "" "" LoaderSettings.initial
    (run here (pagesBelow "/p")).result.toOption.map (fun program =>
        (program.name, program.ids)) =
      some ("/p/lib/../a.gpt",
        ["/p/a.gpt:1", "/p/a.gpt:5", "/p/lib/sub/b.gpt:1", "/p/lib/tool.gpt:1", "sys.read"]) ∧
    (run there (pagesBelow "/q/r")).result.toOption.map (fun program =>
        (program.name, program.ids)) =
      some ("/q/r/lib/../a.gpt",
        ["/q/r/a.gpt:1", "/q/r/a.gpt:5", "/q/r/lib/sub/b.gpt:1", "/q/r/lib/tool.gpt:1",
          "sys.read"]) ∧
    SameElsewhere "/p".toList "/q/r".toList here there (pagesBelow "/p") (pagesBelow "/q/r") := by
  have holds : (pagesBelow "/p").files.HoldsBelow "/p".toList pages.get? :=
    FileTree.holdsBelow_planted ⟨1, ["p".toList], .inl rfl, by decide, rfl⟩ (by decide +kernel)
      (by decide +kernel) (by decide +kernel) (by decide +kernel)
  have holds' : (pagesBelow "/q/r").files.HoldsBelow "/q/r".toList pages.get? :=
    FileTree.holdsBelow_planted ⟨1, ["q".toList, "r".toList], .inl rfl, by decide, rfl⟩
      (by decide +kernel) (by decide +kernel) (by decide +kernel) (by decide +kernel)
  have tree : IsTree defaultModel pages.get? :=
    isTree_of_table (by decide +kernel) (by decide +kernel)
  have unspaced : ∀ {text : List Char}, (text.all fun c => !Text.isBlank c) = true →
      ∀ c ∈ text, Text.isBlank c = false := by
    intro text all c member
    simpa using List.all_eq_true.mp all c member
  refine ⟨by decide +kernel, by decide +kernel, ?_⟩
  exact tree_can_be_moved "" "" LoaderSettings.initial holds holds' tree
    (unspaced (by decide +kernel)) (unspaced (by decide +kernel)) rfl (by decide +kernel)

end ToolGraph.Load
