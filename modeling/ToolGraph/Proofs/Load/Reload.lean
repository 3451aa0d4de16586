import ToolGraph.Proofs.Artifact.Bytes
import ToolGraph.Proofs.Distinct
import ToolGraph.Proofs.Load.Linked
import ToolGraph.Proofs.Shared

/-!
Artifacts that are loaded again. An artifact needs no other source, so nothing but its text is fetched;
it gives the program back, and names of tools lead to where they led before.
-/
namespace ToolGraph

namespace Program

structure SameForms (left right : Program) : Prop where
  keys : left.tools.keys.Perm right.tools.keys
  forms : ∀ id, (left.tool? id).map Tool.toJson? = (right.tool? id).map Tool.toJson?

/-- The id that the entry tool of a program has for a name. The empty name is its own. -/
def select? (program : Program) (name : String) : Option String :=
  if name.isEmpty then some program.entry
  else program.entryTool?.bind fun tool => tool.localTools.get? (Text.lower name)

theorem select?_exchanged {program : Program} (closed : program.Closed) (name : String) :
    program.exchanged.select? name = program.select? name := by
  have entry : program.exchanged.entryTool? = program.entryTool?.map Tool.exchanged :=
    tool?_exchanged closed program.entry
  rw [select?, select?, entry]
  cases program.entryTool? <;> rfl

theorem sameForms_exchanged {program : Program} (closed : program.Closed) (distinct : program.Distinct) :
    program.exchanged.SameForms program := by
  refine ⟨keys_exchanged closed ▸ order_perm closed distinct, ?_⟩
  intro id
  rw [tool?_exchanged closed, Option.map_map]
  congr 1
  funext tool
  simp only [Function.comp_apply, Tool.toJson?, Tool.members?_exchanged]

end Program

namespace Source
open Entries

theorem select_eq {source : Source} {program : Program} {name : String}
    (names : program.entryTool?.map (·.localTools) = some source.first.localTools)
    (own : name = "" → source.first.id = program.entry) :
    source.select name = match program.select? name with
      | some id => .ok id
      | none => .error (.entryNotFound name (String.ofList source.location)) := by
  obtain ⟨entry, found, same⟩ := Option.map_eq_some_iff.mp names
  by_cases unnamed : name = ""
  · simp [select, Program.select?, unnamed, own unnamed]
  · have filled : name.isEmpty = false := by simpa using unnamed
    rw [select, Program.select?, found, Option.bind_some, same, filled]
    cases source.first.localTools.get? (Text.lower name) <;> rfl

theorem select_ofProgram {location : List Char} {program : Program} {source : Source}
    (closed : program.Closed) (made : ofProgram location program = .ok source) (name : String) :
    source.select name = match program.select? name with
      | some id => .ok id
      | none => .error (.entryNotFound name (String.ofList location)) := by
  unfold ofProgram at made
  split at made
  next => simp at made
  next entry found =>
    obtain rfl := Except.ok.inj made
    apply select_eq
    · rw [found, Option.map_some]
    · exact fun _ => closed.ids (mem_of_get? found)

end Source

namespace Load
open Entries

/-! ### Sources whose references are resolved -/

section linked
variable {location : List Char} {source : Source}

theorem accept_linked (context : LoadContext) (linked : source.linked = true) :
    start.accept context location source = .ok (start.deliverSource location source) := by
  have none : ∀ load : Load, load.references source = [] := by simp [references, linked]
  simp only [accept, followSource, none]
  rfl

theorem drain_rested {request : LoadRequest} {context : LoadContext} {bound peak : Nat} {load : Load}
    {world : World} (none : load.pending = []) :
    drain request context bound peak load world = (.ok load, peak, world) := by
  cases bound <;> simp [drain, none]

theorem run_linked {request : LoadRequest} {world later : World} {fetched : Fetched}
    (inTime : request.isOver = false)
    (fetches : request.fetchRoot world = (.ok (location, fetched), later))
    (read : Source.read (request.context world).base (request.context world).model fetched = .ok source)
    (linked : source.linked = true) :
    (run request world).result = (source.select request.subToolName).map
        (fun entry => (start.deliverSource location source).program request.name entry) ∧
      (run request world).world = later := by
  have rested : (start.deliverSource location source).pending = [] := by
    simp [pending, deliverSource, start, put, keys]
  unfold run complete
  simp only [inTime, Bool.false_eq_true, if_false, fetches, begin, read]
  cases source.select request.subToolName with
  | error error => exact ⟨rfl, rfl⟩
  | ok entry =>
    simp only [accept_linked _ linked, Except.map, drain_rested rested, and_self]

theorem tool?_delivered (location : List Char) (source : Source) (name entry id : String) :
    ((start.deliverSource location source).program name entry).tool? id =
      source.tools.find? (·.id == id) := by
  have finished : (start.deliverSource location source).finished = fun tool => tool := rfl
  have tools := tools_deliverSource start location source id
  rw [Program.tool?, program, get?_mapValues, tools, finished]
  cases source.tools.find? (·.id == id) <;> rfl

theorem tool?_ofProgram {program : Program} (closed : program.Closed)
    (distinct : program.tools.keys.Nodup) (made : Source.ofProgram location program = .ok source)
    (id : String) : source.tools.find? (·.id == id) = program.tool? id := by
  have tools : ∀ tool, tool ∈ source.tools ↔ (tool.id, tool) ∈ program.tools :=
    fun _ => Source.mem_tools_ofProgram closed distinct made
  cases found : program.tool? id with
  | some tool =>
    have member : (id, tool) ∈ program.tools := mem_of_get? found
    obtain rfl := closed.ids member
    have apart := (Source.wellFormed_of_ofProgram closed distinct made).2.distinct
    exact find?_tool apart ((tools tool).mpr member)
  | none =>
    apply List.find?_eq_none.mpr
    intro tool member same
    obtain rfl : tool.id = id := by simpa using same
    exact get?_eq_none_iff.mp found (List.mem_map_of_mem ((tools tool).mp member))

theorem sameForms_of_ofProgram {program other : Program} (closed : program.Closed)
    (distinct : program.tools.keys.Nodup) (made : Source.ofProgram location program = .ok source)
    (same : program.SameForms other) (name entry : String) :
    ((start.deliverSource location source).program name entry).SameForms other := by
  have tools : ∀ id, ((start.deliverSource location source).program name entry).tool? id =
      program.tool? id := fun id =>
    (tool?_delivered location source name entry id).trans (tool?_ofProgram closed distinct made id)
  have keys : ((start.deliverSource location source).program name entry).tools.keys.Perm
      program.tools.keys := by
    have apart : (start.deliverSource location source).tools.keys.Nodup :=
      @nodup_addTools [] List.nodup_nil source.tools
    rw [List.perm_ext_iff_of_nodup (by simpa only [Load.program, keys_mapValues] using apart) distinct]
    intro id
    have own := tools id
    simp only [Program.tool?] at own
    simp only [mem_keys_iff, own]
  refine ⟨keys.trans same.keys, ?_⟩
  intro id
  rw [tools, same.forms]

end linked

/-! ### What was assembled -/

theorem run_assembled {program : Program} (closed : program.Closed) (distinct : program.Distinct)
    {text : String} (assembled : Artifact.assemble program = .ok text) {request : LoadRequest}
    {world later : World} {location : List Char} {fetched : Fetched}
    (inTime : request.isOver = false)
    (fetches : request.fetchRoot world = (.ok (location, fetched), later))
    (content : fetched.content = Text.encode text.toList) :
    (run request world).world = later ∧ match program.select? request.subToolName with
      | some id => ∃ result, (run request world).result = .ok result ∧ result.entry = id ∧
          result.SameForms program
      | none => (run request world).result =
          .error (.entryNotFound request.subToolName (String.ofList fetched.location)) := by
  have held : Artifact.disassembleBytes fetched.content = .ok program.exchanged := by
    rw [content]
    exact Artifact.disassembleBytes_of_assemble closed distinct assembled
  obtain ⟨whole, apart⟩ := Source.closed_of_disassembleBytes held
  obtain ⟨entry, found⟩ := mem_keys_iff.mp whole.entry
  have found : program.exchanged.entryTool? = some entry := found
  obtain ⟨source, made⟩ : ∃ source,
      Source.ofProgram fetched.location program.exchanged = .ok source := by
    simp [Source.ofProgram, found]
  have read : Source.read (request.context world).base (request.context world).model fetched =
      .ok source := by
    rw [Source.read, content, Artifact.isArtifact_of_assemble distinct assembled, ← content, held]
    exact made
  -- The references of an artifact are resolved, so no task is left after its root.
  have linked := (Source.ofProgram_spec whole apart made).2.1
  obtain ⟨result, after⟩ := run_linked inTime fetches read linked
  refine ⟨after, ?_⟩
  rw [result, Source.select_ofProgram whole made, Program.select?_exchanged closed]
  cases program.select? request.subToolName with
  | none => rfl
  | some id =>
    exact ⟨_, rfl, rfl, sameForms_of_ofProgram whole apart made
      (Program.sameForms_exchanged closed distinct) _ _⟩

/-! ### What was loaded -/

section loaded
variable {request : LoadRequest} {place : Canonical.Place} {answers : Answers} {root : List Char}
  {first : Source} {load : Load}

theorem Whole.distinct (read : RootRead request place answers root first)
    (whole : load.Whole (request.contextAt place) answers root first) (name entry : String) :
    (load.program name entry).Distinct where
  ids := by simpa only [program, keys_mapValues] using whole.sound.distinct
  tables := by
    intro id tool member
    obtain ⟨own, found, rfl⟩ := whole.finished_of_mem member
    have tables : own.Distinct := by
      rcases whole.sound.known found with ⟨location, source, at_, member⟩ | ⟨_, _, _, -, leads⟩
      · obtain ⟨fetched, given⟩ := exists_read read whole.sound at_
        exact Source.distinct_of_read given own member
      · obtain ⟨name, known⟩ := builtin_of_find leads
        exact Builtin.distinct_of_find? known
    refine ⟨?_, by simpa only [localTools_finished] using tables.locals, ?_⟩
    · rw [toolMapping_finished]
      exact nodup_merge tables.mapping _
    · rw [finished_eq]
      exact tables.arguments

theorem Whole.entryTool {context : LoadContext} (whole : load.Whole context answers root first)
    {subTool entry : String} (selected : first.select subTool = .ok entry) (name : String) :
    ∃ tool ∈ first.tools, tool.id = entry ∧
      (load.program name entry).entryTool? = some (load.finished tool) := by
  have wellFormed := whole.wellFormed whole.sound.rooted
  obtain ⟨tool, member, rfl⟩ := List.mem_map.mp (mem_tools_of_select wellFormed selected)
  refine ⟨tool, member, rfl, ?_⟩
  have early := get?_deliverSource start root wellFormed.distinct member
  have found : load.tools.get? tool.id = some tool := whole.sound.grown.tools early
  show (load.tools.mapValues load.finished).get? tool.id = some (load.finished tool)
  rw [get?_mapValues, found, Option.map_some]

/-- The entry tool knows the tools of the root by the names that the root has for them, unless the
root is an artifact that was entered elsewhere. -/
theorem Whole.localTools_entryTool (read : RootRead request place answers root first)
    (whole : load.Whole (request.contextAt place) answers root first) {subTool entry : String}
    (selected : first.select subTool = .ok entry) (own : first.linked = true → subTool = "")
    (name : String) :
    (load.program name entry).entryTool?.map (·.localTools) = some first.first.localTools := by
  obtain ⟨tool, member, same, found⟩ := whole.entryTool selected name
  rw [found, Option.map_some, localTools_finished]
  cases linked : first.linked with
  | false =>
    obtain ⟨fetched, -, given⟩ := read
    exact congrArg some ((Source.shared_of_read given linked).named tool member _ List.mem_cons_self)
  | true =>
    have here : first.first.id = entry := by
      rw [own linked] at selected
      exact Except.ok.inj selected
    -- No two tools of the root share an id, so the entry is its first tool itself.
    have distinct := (whole.wellFormed whole.sound.rooted).distinct
    have first := List.inj_on_of_nodup_map distinct member List.mem_cons_self (same.trans here.symm)
    rw [first]

end loaded

/-- A load with a name for its entry and a reload with this name come to the same entry, or neither
finds it. -/
inductive SameSelection (request : LoadRequest) (place : Canonical.Place) (answers : Answers)
    (load : Load) (name : String) (reloaded : Except Error Program) : Prop where
  | selects {id : String} {result : Program}
      (loaded : Completes { request with subTool := name } place answers load id)
      (again : reloaded = .ok result) (same : result.entry = id) :
      SameSelection request place answers load name reloaded
  | refuses {location other : String}
      (loaded : Outcome { request with subTool := name } place answers
        (.error (.entryNotFound name location)))
      (again : reloaded = .error (.entryNotFound name other)) :
      SameSelection request place answers load name reloaded

theorem subToolName_named {request : LoadRequest} {name : String} (named : name ≠ "") :
    LoadRequest.subToolName { request with subTool := name } = name := by
  have filled : name.isEmpty = false := by simpa using named
  unfold LoadRequest.subToolName
  cases request.root <;> simp [filled]

theorem Completes.run_assembled {request : LoadRequest} {place : Canonical.Place} {answers : Answers}
    {load : Load} {entry text : String} (done : Completes request place answers load entry)
    (assembled : Artifact.assemble (load.program request.name entry) = .ok text) {again : LoadRequest}
    {world later : World} {location : List Char} {fetched : Fetched} (inTime : again.isOver = false)
    (fetches : again.fetchRoot world = (.ok (location, fetched), later))
    (content : fetched.content = Text.encode text.toList) :
    (run again world).world = later ∧
      match (load.program request.name entry).select? again.subToolName with
      | some id => ∃ result, (run again world).result = .ok result ∧ result.entry = id ∧
          result.SameForms (load.program request.name entry)
      | none => (run again world).result =
          .error (.entryNotFound again.subToolName (String.ofList fetched.location)) := by
  obtain ⟨-, root, first, state, read, selected, steps, finished, rfl⟩ := done
  have whole := whole_of_steps read steps finished
  exact Load.run_assembled (whole.closed selected) (whole.distinct read _ _) assembled inTime fetches
    content

/-- An artifact that is loaded again is the program as it was loaded: it has its entry and its tools,
each in the same JSON form, and only the text is fetched. With another name for the entry it leads to
the tool that the first load has for this name, or neither finds one. A root that is an artifact itself
is left out there, where it was entered at another tool than its own entry, one with other names. -/
theorem reload_same {request : LoadRequest} {place : Canonical.Place} {answers : Answers}
    {load : Load} {entry text : String} (done : Completes request place answers load entry)
    (assembled : Artifact.assemble (load.program request.name entry) = .ok text)
    {again : LoadRequest} {world later : World} {location : List Char} {fetched : Fetched}
    (inTime : again.isOver = false) (fetches : again.fetchRoot world = (.ok (location, fetched), later))
    (content : fetched.content = Text.encode text.toList) :
    (run again world).world = later ∧
      (again.subToolName = "" → ∃ result, (run again world).result = .ok result ∧
        result.entry = entry ∧ result.SameForms (load.program request.name entry)) ∧
      ∃ root first, RootRead request place answers root first ∧
        first.select request.subToolName = .ok entry ∧
        (again.subToolName ≠ "" → (first.linked = true → request.subToolName ≠ "" →
            (load.program request.name entry).entryTool?.map (·.localTools) =
              some first.first.localTools) →
          SameSelection request place answers load again.subToolName (run again world).result) := by
  obtain ⟨after, reloaded⟩ := done.run_assembled assembled inTime fetches content
  obtain ⟨early, root, first, state, read, selected, steps, finished, rfl⟩ := done
  have whole := whole_of_steps read steps finished
  refine ⟨after, ?_, root, first, read, selected, ?_⟩
  · intro unnamed
    rw [unnamed] at reloaded
    exact reloaded
  · intro named alike
    have names : (state.load.program request.name entry).entryTool?.map (·.localTools) =
        some first.first.localTools := by
      by_cases own : first.linked = true → request.subToolName = ""
      · exact whole.localTools_entryTool read selected own _
      · obtain ⟨linked, elsewhere⟩ := Classical.not_imp.mp own
        exact alike linked elsewhere
    generalize again.subToolName = name at named reloaded ⊢
    have again' := @subToolName_named request name named
    have selects := Source.select_eq names (fun unnamed => absurd unnamed named)
    cases given : (state.load.program request.name entry).select? name with
    | some id =>
      rw [given] at reloaded selects
      obtain ⟨result, loaded, entered, -⟩ := reloaded
      exact .selects ⟨early, root, first, state, read, again'.symm ▸ selects, steps, finished, rfl⟩
        loaded entered
    | none =>
      rw [given] at reloaded selects
      exact .refuses (.noEntry read (by rw [again']; exact selects)) reloaded

/-! ### Small reloads -/

def inHand (text name : String) : LoadRequest :=
  ⟨.text text "inline", name, "", LoaderSettings.initial⟩

def selectionOf (name : String) (program : Program) : Option String × Bool :=
  (program.select? name, (Artifact.assemble program).toOption.isSome)

theorem exists_artifact {request : LoadRequest} {world : World} {name : String}
    {selection : Option String}
    (known : (run request world).result.toOption.map (selectionOf name) = some (selection, true)) :
    ∃ load entry text, (complete request world).1 = .ok (load, entry) ∧
      (load.program request.name entry).select? name = selection ∧
      Artifact.assemble (load.program request.name entry) = .ok text := by
  cases loaded : (run request world).result with
  | error error => simp [loaded, Except.toOption] at known
  | ok program =>
    obtain ⟨load, entry, completed, rfl⟩ := run_eq_ok.mp loaded
    rw [loaded] at known
    obtain ⟨selects, assembles⟩ := Prod.mk.inj (Option.some.inj known)
    cases assembled : Artifact.assemble (load.program request.name entry) with
    | error error => simp [assembled, Except.toOption] at assembles
    | ok text => exact ⟨load, entry, text, completed, selects, assembled⟩

def couple : World :=
  .ofFiles "/work" [("/work/a.gpt", "tools: two\n\nGo on.\n---\nname: two\n\nStop.")]

set_option maxRecDepth 10000 in
theorem couple_reload_same : ∃ load entry text,
    (complete (.of "a.gpt") couple).1 = .ok (load, entry) ∧
      Artifact.assemble (load.program "a.gpt" entry) = .ok text ∧
      (run (inHand text "two") couple).world = couple ∧
      (load.program "a.gpt" entry).select? "two" = some "/work/a.gpt:5" ∧
      SameSelection (.of "a.gpt") couple.place (couple.answers (.of "a.gpt")) load "two"
        (run (inHand text "two") couple).result ∧
      ∃ result, (run (inHand text "") couple).result = .ok result ∧ result.entry = entry := by
  have known : (run (.of "a.gpt") couple).result.toOption.map (selectionOf "two") =
      some (some "/work/a.gpt:5", true) := by
    decide +kernel
  obtain ⟨load, entry, text, completed, selects, assembled⟩ := exists_artifact known
  have done := completes_of_complete completed
  have reloads := fun name => @reload_same (.of "a.gpt") _ _ load entry text done assembled
    (inHand text name) couple couple _ _ rfl rfl rfl
  obtain ⟨after, -, root, first, -, -, named⟩ := reloads "two"
  obtain ⟨-, whole, -⟩ := reloads ""
  obtain ⟨result, reloaded, entered, -⟩ := whole rfl
  refine ⟨load, entry, text, completed, assembled, after, selects, ?_, result, reloaded, entered⟩
  exact named (show "two" ≠ "" by decide) (fun _ elsewhere => absurd rfl elsewhere)

/-- An artifact whose entry tool knows another tool, which knows none. -/
def oneWay : World :=
  .ofFiles "/work"
    [("/work/b.json", "\x7b\"kind\": \"toolscribe.assembled/v1\", \"name\": \"b\", \"entry\": 0, " ++
      "\"tools\": [\x7b\"id\": \"a\", \"localTools\": \x7b\"b\": 1\x7d\x7d, \x7b\"id\": \"b\"\x7d]\x7d")]

set_option maxRecDepth 10000 in
/-- A reload without time comes to nothing. An artifact that is entered at the tool it knows no longer
knows the tool when it is assembled and loaded again. -/
theorem oneWay_reload_differs :
    (¬ ∀ (request other : LoadRequest) (world : World) (program : Program) (text : String),
        (run request world).result = .ok program → Artifact.assemble program = .ok text →
        other.root = .text text "inline" → other.subTool = "" →
        ∃ result, (run other world).result = .ok result) ∧
      ¬ ∀ (request other : LoadRequest) (world : World) (program : Program) (text name : String),
        (run request world).result = .ok program → Artifact.assemble program = .ok text →
        other.isOver = false → other.root = .text text "inline" → other.subTool = name →
        name ≠ "" →
        (∃ one two, (run { request with subTool := name } world).result = .ok one ∧
            (run other world).result = .ok two ∧ one.entry = two.entry) ∨
          ∃ place place',
            (run { request with subTool := name } world).result = .error (.entryNotFound name place) ∧
              (run other world).result = .error (.entryNotFound name place') := by
  have known : (run (.of "b from b.json") oneWay).result.toOption.map (selectionOf "b") =
        some (none, true) ∧
      (run { LoadRequest.of "b from b.json" with subTool := "b" } oneWay).result.toOption.isSome := by
    decide +kernel
  obtain ⟨load, entry, text, completed, selects, assembled⟩ := exists_artifact known.1
  have loaded := run_eq_ok.mpr ⟨load, entry, completed, rfl⟩
  constructor
  · intro returns
    let late : LoadRequest :=
      { inHand text "" with
        settings := { LoaderSettings.initial with timeout := some (Binary64.ofInt 0) } }
    have expired : late.isOver = true := show (Binary64.ofInt 0).isAtMostZero = true by decide
    obtain ⟨result, returned⟩ := returns _ late oneWay _ text loaded assembled rfl rfl
    simp [run, complete, expired, Except.map] at returned
  · intro agree
    have refuses := (@Completes.run_assembled _ _ _ load entry text (completes_of_complete completed)
      assembled (inHand text "b") oneWay oneWay _ _ rfl rfl rfl).2
    rw [show (inHand text "b").subToolName = "b" from rfl, selects] at refuses
    rcases agree _ (inHand text "b") oneWay _ text "b" loaded assembled rfl rfl rfl (by decide) with
      ⟨one, two, -, found, -⟩ | ⟨place, place', missing, -⟩
    · simp [refuses] at found
    · simp [missing, Except.toOption] at known

end Load
end ToolGraph
