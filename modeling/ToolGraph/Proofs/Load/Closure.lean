import Mathlib.Data.List.Pairwise
import ToolGraph.Proofs.Load.Leads
import ToolGraph.Proofs.Load.Linked

/-!
A load computes the closure of its root under references. The closure is stated on its own: which
sources belong to it, which tools and which targets. A load that is done has all of it, and no more.
-/
namespace ToolGraph.Load
open Entries

/-! ### The closure of a root -/

/-- The sources that locations stand for. -/
abbrev Sources := List Char → Option Source

structure Sources.Open (sources : Sources) (location : List Char) (tool : Tool)
    (reference : String) : Prop where
  live : ∃ source, sources location = some source ∧ source.linked = false ∧ tool ∈ source.tools
  unresolved : reference ∈ tool.unresolved

inductive Sources.Closure (sources : Sources) (outlook : Outlook) (root : List Char) :
    List Char → Prop where
  | root : Sources.Closure sources outlook root root
  | next {location next : List Char} {tool : Tool} {reference subTool : String}
      (member : Sources.Closure sources outlook root location)
      (open_ : sources.Open location tool reference)
      (leads : Leads outlook tool reference (.source next subTool)) :
      Sources.Closure sources outlook root next

def Sources.Defines (sources : Sources) (tool : Tool) : Prop :=
  ∃ location source, sources location = some source ∧ tool ∈ source.tools

def Sources.Names (sources : Sources) (outlook : Outlook) (target : Tool) : Prop :=
  ∃ location tool reference, sources.Open location tool reference ∧
    Leads outlook tool reference (.builtin target)

inductive Sources.Target (sources : Sources) (outlook : Outlook) (tool : Tool)
    (reference : String) : String → Prop where
  | sibling {id : String} (leads : Leads outlook tool reference (.sibling id)) :
      Sources.Target sources outlook tool reference id
  | builtin {target : Tool} (leads : Leads outlook tool reference (.builtin target)) :
      Sources.Target sources outlook tool reference target.id
  | source {location : List Char} {subTool id : String} {source : Source}
      (leads : Leads outlook tool reference (.source location subTool))
      (found : sources location = some source) (enters : Enters source subTool id) :
      Sources.Target sources outlook tool reference id

structure Sources.Completed (sources : Sources) (outlook : Outlook) (own tool : Tool) : Prop where
  kept : tool = { own with toolMapping := tool.toolMapping }
  mapping : ∀ {reference target}, tool.toolMapping.get? reference = some target ↔
    own.toolMapping.get? reference = some target ∨
      (∃ location, sources.Open location own reference) ∧ sources.Target outlook own reference target

structure Sources.IsProgram (sources : Sources) (outlook : Outlook) (root : List Char)
    (program : Program) : Prop where
  members : ∀ {location}, (∃ source, sources location = some source) ↔
    sources.Closure outlook root location
  targets : ∀ {location tool reference}, sources.Open location tool reference →
    ∃ target, sources.Target outlook tool reference target
  all : ∀ {own : Tool}, sources.Defines own ∨ sources.Names outlook own →
    ∃ tool, program.tools.get? own.id = some tool ∧ sources.Completed outlook own tool
  only : ∀ {id tool}, program.tools.get? id = some tool → ∃ own : Tool, own.id = id ∧
    (sources.Defines own ∨ sources.Names outlook own) ∧ sources.Completed outlook own tool

def Sources.Agree (sources : Sources) : Prop :=
  ∀ {one two first second}, one ≠ two → sources one = some first → sources two = some second →
    ∀ tool ∈ first.tools, ∀ other ∈ second.tools, tool.id = other.id → tool = other

def Sources.AgreeWithBuiltins (sources : Sources) (outlook : Outlook) : Prop :=
  ∀ {tool target}, sources.Defines tool → sources.Names outlook target → tool.id = target.id →
    tool = target

theorem Sources.Target.unique {sources : Sources} {outlook : Outlook} {tool : Tool}
    {reference one two : String} (first : sources.Target outlook tool reference one)
    (second : sources.Target outlook tool reference two) : one = two := by
  cases first with
  | sibling leads =>
    cases second with
    | sibling other => exact Destination.sibling.inj (leads.unique other)
    | builtin other | source other => cases leads.unique other
  | builtin leads =>
    cases second with
    | builtin other => rw [Destination.builtin.inj (leads.unique other)]
    | sibling other | source other => cases leads.unique other
  | source leads found enters =>
    cases second with
    | source other foundOther entersOther =>
      obtain ⟨rfl, rfl⟩ := Destination.source.inj (leads.unique other)
      obtain rfl := Option.some.inj (found.symm.trans foundOther)
      exact Except.ok.inj ((select_eq_ok_iff.mpr enters).symm.trans (select_eq_ok_iff.mpr entersOther))
    | sibling other | builtin other => cases leads.unique other

/-! ### A load that is done is a closure -/

section closure
variable {context : LoadContext} {answers : Answers} {root : List Char} {first : Source} {load : Load}

theorem Whole.agree (whole : load.Whole context answers root first)
    (agree : Sources.Agree load.source?) {tool other : Tool}
    (defines : Sources.Defines load.source? tool) (defines' : Sources.Defines load.source? other)
    (same : tool.id = other.id) : tool = other := by
  obtain ⟨one, source, found, member⟩ := defines
  obtain ⟨two, source', found', member'⟩ := defines'
  by_cases here : one = two
  · subst here
    obtain rfl := Option.some.inj (found.symm.trans found')
    exact List.inj_on_of_nodup_map (whole.wellFormed found).distinct member member' same
  · exact agree here found found' tool member other member' same

theorem Whole.mem_of_references (whole : load.Whole context answers root first)
    (agree : Sources.Agree load.source?) {location : List Char} {source : Source} {tool : Tool}
    {reference : String} (found : load.source? location = some source)
    (refers : (tool, reference) ∈ load.references source) :
    tool ∈ source.tools ∧ Sources.Open load.source? location tool reference := by
  obtain ⟨live, -, ⟨own, member, stored⟩, present⟩ := mem_references_iff.mp refers
  have same := whole.sound.tool_id stored
  have isOwn : tool = own := by
    rcases whole.sound.known stored with ⟨place, other, at_, defined⟩ | ⟨_, _, _, -, leads⟩
    · exact whole.agree agree ⟨place, other, at_, defined⟩ ⟨location, source, found, member⟩ same
    · obtain ⟨name, known⟩ := builtin_of_find leads
      simp [Tool.unresolved, (targets_builtin known).2.1] at present
  subst isOwn
  exact ⟨member, ⟨source, found, live, member⟩, present⟩

theorem Whole.open_of_refers (whole : load.Whole context answers root first)
    (agree : Sources.Agree load.source?) {origin : List Char} {tool : Tool} {reference : String}
    (refers : Refers load origin tool reference) :
    ∃ location, Sources.Open load.source? location tool reference := by
  obtain ⟨location, source, found, -, member⟩ := refers
  exact ⟨location, (whole.mem_of_references agree found member).2⟩

theorem Whole.get?_of_defines (whole : load.Whole context answers root first)
    (agree : Sources.Agree load.source?)
    (apart : Sources.AgreeWithBuiltins load.source? context.outlook) {tool : Tool}
    (defines : Sources.Defines load.source? tool) : load.tools.get? tool.id = some tool := by
  obtain ⟨location, source, found, member⟩ := defines
  obtain ⟨other, stored⟩ := mem_keys_iff.mp (whole.sound.stored found tool member)
  have same := whole.sound.tool_id stored
  rcases whole.sound.known stored with ⟨place, source', at_, defined⟩ | ⟨_, _, _, refers, leads⟩
  · rw [stored, whole.agree agree ⟨place, source', at_, defined⟩ ⟨location, source, found, member⟩
      same]
  · obtain ⟨place, open_⟩ := whole.open_of_refers agree refers
    have isSame := apart ⟨location, source, found, member⟩
      ⟨place, _, _, open_, find_eq_ok_iff.mp leads⟩ same.symm
    rw [stored, isSame]

theorem Whole.references_of_open (whole : load.Whole context answers root first)
    (agree : Sources.Agree load.source?)
    (apart : Sources.AgreeWithBuiltins load.source? context.outlook) {location : List Char}
    {tool : Tool} {reference : String} (open_ : Sources.Open load.source? location tool reference) :
    ∃ source, load.source? location = some source ∧ (tool, reference) ∈ load.references source := by
  obtain ⟨source, found, live, member⟩ := open_.live
  refine ⟨source, found, mem_references_iff.mpr ⟨live, ⟨tool, member, ?_⟩, ⟨tool, member, ?_⟩,
    open_.unresolved⟩⟩
  · exact List.ne_nil_of_mem open_.unresolved
  · exact whole.get?_of_defines agree apart ⟨location, source, found, member⟩

theorem Resolves.target {tool : Tool} {reference id : String}
    (resolves : Resolves context load tool reference id) :
    Sources.Target load.source? context.outlook tool reference id := by
  cases resolves with
  | sibling leads => exact .sibling (find_eq_ok_iff.mp leads)
  | builtin leads known => exact .builtin (find_eq_ok_iff.mp leads)
  | source leads found selected =>
    exact .source (find_eq_ok_iff.mp leads) found (select_eq_ok_iff.mp selected)

theorem Whole.open_of_target (whole : load.Whole context answers root first)
    (agree : Sources.Agree load.source?) {tool : Tool} {reference target : String}
    (stored : load.tools.get? tool.id = some tool)
    (mapped : load.target? tool.id reference = some target) :
    (∃ location, Sources.Open load.source? location tool reference) ∧
      Resolves context load tool reference target := by
  obtain ⟨origin, own, same, refers, resolves⟩ := whole.sound.mapped mapped
  obtain ⟨⟨id, found⟩, -⟩ := refers.tool
  have isOwn : own = tool := by
    rw [← whole.sound.tool_id found, same, stored] at found
    exact (Option.some.inj found).symm
  subst isOwn
  exact ⟨whole.open_of_refers agree refers, resolves⟩

theorem Whole.target_of_open (whole : load.Whole context answers root first)
    (agree : Sources.Agree load.source?)
    (apart : Sources.AgreeWithBuiltins load.source? context.outlook) {location : List Char}
    {tool : Tool} {reference : String} (open_ : Sources.Open load.source? location tool reference) :
    ∃ target, load.target? tool.id reference = some target ∧
      Resolves context load tool reference target := by
  obtain ⟨source, found, refers⟩ := whole.references_of_open agree apart open_
  exact whole.resolves found refers

theorem Whole.source?_iff (whole : load.Whole context answers root first)
    (agree : Sources.Agree load.source?)
    (apart : Sources.AgreeWithBuiltins load.source? context.outlook) {location : List Char} :
    (∃ source, load.source? location = some source) ↔
      Sources.Closure load.source? context.outlook root location := by
  constructor
  · rintro ⟨source, found⟩
    have reached := whole.sound.reached (mem_keys_of_source? found)
    clear found
    induction reached with
    | root => exact .root
    | next _ found refers leads ih =>
      exact .next ih (whole.mem_of_references agree found refers).2 (find_eq_ok_iff.mp leads)
  · intro member
    cases member with
    | root => exact ⟨first, whole.sound.rooted⟩
    | next member open_ leads =>
      obtain ⟨target, -, resolves⟩ := whole.target_of_open agree apart open_
      obtain ⟨source, found, -⟩ := resolves.of_source (find_eq_ok_iff.mpr leads)
      exact ⟨source, found⟩

theorem Whole.get?_of_names (whole : load.Whole context answers root first)
    (agree : Sources.Agree load.source?)
    (apart : Sources.AgreeWithBuiltins load.source? context.outlook) {target : Tool}
    (names : Sources.Names load.source? context.outlook target) :
    load.tools.get? target.id = some target := by
  obtain ⟨location, tool, reference, open_, leads⟩ := names
  obtain ⟨id, -, resolves⟩ := whole.target_of_open agree apart open_
  have leads' := find_eq_ok_iff.mpr leads
  obtain ⟨stored, found⟩ := mem_keys_iff.mp (has_iff.mp (resolves.of_builtin leads').2)
  have same := whole.sound.tool_id found
  rcases whole.sound.known found with defines | ⟨_, _, _, -, leads''⟩
  · rw [found, apart defines ⟨location, tool, reference, open_, leads⟩ same]
  · obtain ⟨one, first⟩ := builtin_of_find leads'
    obtain ⟨two, second⟩ := builtin_of_find leads''
    rw [found, builtin_unique second first same]

theorem Whole.completed (whole : load.Whole context answers root first)
    (agree : Sources.Agree load.source?)
    (apart : Sources.AgreeWithBuiltins load.source? context.outlook) {tool : Tool}
    (stored : load.tools.get? tool.id = some tool) :
    Sources.Completed load.source? context.outlook tool (load.finished tool) := by
  refine ⟨finished_eq load tool, ?_⟩
  intro reference target
  rw [get?_toolMapping_finished]
  by_cases present : reference ∈ tool.tools
  · rw [if_pos present]
    cases mapped : load.target? tool.id reference with
    | some known =>
      obtain ⟨⟨location, open_⟩, resolves⟩ := whole.open_of_target agree stored mapped
      have missing : tool.toolMapping.get? reference = none := by
        have := (List.mem_filter.mp open_.unresolved).2
        rw [get?_eq_none_iff, ← has_eq_false_iff]
        simpa using this
      simp only [Option.some_or, Option.some.injEq, missing, reduceCtorEq, false_or]
      constructor
      · rintro rfl
        exact ⟨⟨location, open_⟩, resolves.target⟩
      · rintro ⟨-, other⟩
        exact resolves.target.unique other
    | none =>
      simp only [Option.none_or]
      refine ⟨.inl, ?_⟩
      rintro (old | ⟨⟨location, open_⟩, -⟩)
      · exact old
      · obtain ⟨known, found, -⟩ := whole.target_of_open agree apart open_
        simp [mapped] at found
  · rw [if_neg present]
    simp only [Option.none_or]
    refine ⟨.inl, ?_⟩
    rintro (old | ⟨⟨location, open_⟩, -⟩)
    · exact old
    · exact absurd (List.mem_filter.mp open_.unresolved).1 present

theorem Whole.isProgram (whole : load.Whole context answers root first)
    (agree : Sources.Agree load.source?)
    (apart : Sources.AgreeWithBuiltins load.source? context.outlook) (name entry : String) :
    Sources.IsProgram load.source? context.outlook root (load.program name entry) := by
  refine ⟨whole.source?_iff agree apart, ?_, ?_, ?_⟩
  · intro location tool reference open_
    obtain ⟨target, -, resolves⟩ := whole.target_of_open agree apart open_
    exact ⟨target, resolves.target⟩
  · intro own belongs
    have stored : load.tools.get? own.id = some own :=
      belongs.elim (whole.get?_of_defines agree apart) (whole.get?_of_names agree apart)
    refine ⟨load.finished own, ?_, whole.completed agree apart stored⟩
    simp only [program, get?_mapValues, stored, Option.map_some]
  · intro id tool found
    simp only [program, get?_mapValues, Option.map_eq_some_iff] at found
    obtain ⟨own, found, rfl⟩ := found
    have same := whole.sound.tool_id found
    subst same
    refine ⟨own, rfl, ?_, whole.completed agree apart found⟩
    rcases whole.sound.known found with defines | ⟨_, user, reference, refers, leads⟩
    · exact .inl defines
    · obtain ⟨location, open_⟩ := whole.open_of_refers agree refers
      exact .inr ⟨location, user, reference, open_, find_eq_ok_iff.mp leads⟩

/-- Ids of tools of sources that are no artifacts have a colon, and names of built-in tools have
none. -/
theorem Whole.agreeWithBuiltins (whole : load.Whole context answers root first)
    (live : ∀ {location source}, load.source? location = some source → source.linked = false) :
    Sources.AgreeWithBuiltins load.source? context.outlook := by
  rintro tool target ⟨location, source, found, member⟩ ⟨_, _, _, -, leads⟩ same
  have builtin : IsBuiltin target := builtin_of_find (find_eq_ok_iff.mpr leads)
  obtain ⟨line, id⟩ := ((whole.wellFormed found).lined (live found)).ids tool member
  exact absurd (same ▸ id ▸ Block.colon_mem_idAt _ line) (colon_not_mem_id builtin)

/-- The sources of a load, and what they are read from. -/
structure Sources.AreRead (sources : Sources) (request : LoadRequest) (place : Canonical.Place)
    (answers : Answers) (root : List Char) : Prop where
  read : ∀ {location source}, sources location = some source → ∃ fetched,
    (if location = root then RootFound request place answers root (.ok fetched)
      else answers location (.ok fetched)) ∧
    Source.read (request.contextAt place).base (request.contextAt place).model fetched = .ok source ∧
    (source.linked = true → ∃ program, Artifact.disassembleBytes fetched.content = .ok program ∧
      source.first.id = program.entry ∧
      ∀ {tool}, tool ∈ source.tools ↔ (tool.id, tool) ∈ program.tools) ∧
    (source.linked = false → Tool.Lined (String.ofList source.location) source.tools)

end closure

theorem Completes.areRead {request : LoadRequest} {place : Canonical.Place} {answers : Answers}
    {load : Load} {root : List Char} {first : Source}
    (whole : load.Whole (request.contextAt place) answers root first)
    (rooted : RootRead request place answers root first) :
    Sources.AreRead load.source? request place answers root := by
  refine ⟨fun {location source} found => ?_⟩
  by_cases here : location = root
  · subst here
    obtain rfl := Option.some.inj (whole.sound.rooted.symm.trans found)
    obtain ⟨fetched, content, read⟩ := rooted
    exact ⟨fetched, by simpa using content, read, Source.artifact_of_read read,
      (Source.wellFormed_of_read read).2.lined⟩
  · obtain ⟨fetched, content, read⟩ := whole.sound.read found here
    exact ⟨fetched, by simpa [here] using content, read, Source.artifact_of_read read,
      (Source.wellFormed_of_read read).2.lined⟩

/-- A load computes the closure of its root, where the sources that it reaches agree on the ids that
they share with each other and with built-in tools. -/
theorem completes_closure {request : LoadRequest} {place : Canonical.Place} {answers : Answers}
    {load : Load} {entry : String} (done : Completes request place answers load entry)
    (agree : Sources.Agree load.source?)
    (apart : Sources.AgreeWithBuiltins load.source? (request.contextAt place).outlook) :
    ∃ root first, RootRead request place answers root first ∧ load.source? root = some first ∧
      Enters first request.subToolName entry ∧
      Sources.AreRead load.source? request place answers root ∧
      Sources.IsProgram load.source? (request.contextAt place).outlook root
        (load.program request.name entry) := by
  obtain ⟨root, first, read, selected, whole⟩ := done.whole
  exact ⟨root, first, read, whole.sound.rooted, select_eq_ok_iff.mp selected,
    Completes.areRead whole read, whole.isProgram agree apart request.name entry⟩

/-! ### Loads of small worlds -/

/-- The sources at hand: whether they are artifacts, and the ids of their tools. -/
def idsBySource (load : Load) : List (List Char × Bool × List String) :=
  load.sources.filterMap (fun entry =>
    entry.2.map (fun source => (entry.1, source.linked, source.tools.map Tool.id)))

theorem mem_idsBySource {load : Load} {location : List Char} {source : Source}
    (found : load.source? location = some source) :
    (location, source.linked, source.tools.map Tool.id) ∈ load.idsBySource :=
  List.mem_filterMap.mpr ⟨_, mem_of_get? (source?_eq_some_iff.mp found), rfl⟩

theorem agree_of_nodup {load : Load} (apart : (load.idsBySource.flatMap (·.2.2)).Nodup) :
    Sources.Agree load.source? := by
  intro one two first second different found found' tool member other member' same
  have symmetric : Std.Symm (Function.onFun List.Disjoint
      (fun entry : List Char × Bool × List String => entry.2.2)) :=
    ⟨fun _ _ disjoint _ one two => disjoint two one⟩
  have disjoint := (List.nodup_flatMap.mp apart).2.forall (mem_idsBySource found)
    (mem_idsBySource found') (by simp [different])
  have shared : tool.id ∈ second.tools.map Tool.id := same ▸ List.mem_map_of_mem member'
  exact absurd shared (disjoint (List.mem_map_of_mem member))

set_option maxRecDepth 10000 in
theorem chain_closure : ∃ load entry, (complete (.of "a.gpt") chain).1 = .ok (load, entry) ∧
    Sources.Agree load.source? ∧ ∃ root,
      Sources.IsProgram load.source? (LoadRequest.context (.of "a.gpt") chain).outlook root
        (load.program "a.gpt" entry) := by
  have shape : (complete (.of "a.gpt") chain).1.toOption.map (·.1.idsBySource) =
      some [("/work/a.gpt".toList, false, ["/work/a.gpt:1"]),
        ("/work/b.gpt".toList, false, ["/work/b.gpt:1"])] := by decide +kernel
  cases completed : (complete (.of "a.gpt") chain).1 with
  | error error => simp [completed, Except.toOption] at shape
  | ok done =>
    obtain ⟨load, entry⟩ := done
    simp only [completed, Except.toOption, Option.map_some, Option.some.injEq] at shape
    have agree : Sources.Agree load.source? := agree_of_nodup (by rw [shape]; decide)
    have live : ∀ {location source}, load.source? location = some source →
        source.linked = false := by
      intro location source found
      have member := mem_idsBySource found
      rw [shape] at member
      simp only [List.mem_cons, Prod.mk.injEq, List.not_mem_nil, or_false] at member
      rcases member with ⟨-, live, -⟩ | ⟨-, live, -⟩ <;> exact live
    have done := completes_of_complete completed
    obtain ⟨_, _, _, _, whole⟩ := done.whole
    obtain ⟨root, first, -, -, -, -, closure⟩ :=
      completes_closure done agree (whole.agreeWithBuiltins live)
    exact ⟨load, entry, rfl, agree, root, closure⟩

/-- A file that refers to a built-in tool, and to an artifact with a tool of that id and with one whose
reference is not mapped. -/
def clash : World :=
  .ofFiles "/work" [("/work/a.gpt", "tools: sys.read, b.json\n\nGo on."),
    ("/work/b.json", "\x7b\"kind\": \"toolscribe.assembled/v1\", \"name\": \"b\", \"entry\": 0, " ++
      "\"tools\": [\x7b\"id\": \"sys.read\", \"name\": \"mine\"\x7d, " ++
      "\x7b\"id\": \"other\", \"tools\": [\"sys.find\"]\x7d]\x7d")]

set_option maxRecDepth 10000 in
set_option synthInstance.maxSize 500 in
/-- Sources that agree with each other are not enough: of an artifact's tool and a built-in one with the
same id, one is left out. Nor are the references of an artifact looked up. -/
theorem clash_no_closure : ∃ load entry, (complete (.of "a.gpt") clash).1 = .ok (load, entry) ∧
    Sources.Agree load.source? ∧
    (∃ own, Sources.Defines load.source? own ∧
      ∀ tool, (load.program "a.gpt" entry).tools.get? own.id = some tool → tool.name ≠ own.name) ∧
    ∃ tool, (load.program "a.gpt" entry).tools.get? "other" = some tool ∧
      tool.unresolved = ["sys.find"] := by
  have ran : (complete (.of "a.gpt") clash).1.toOption.map (fun done =>
      (done.1.idsBySource,
        (done.1.source? "/work/b.json".toList).map (·.tools.map (fun tool => (tool.id, tool.name))),
        ((done.1.program "a.gpt" done.2).tools.get? "sys.read").map (·.name),
        ((done.1.program "a.gpt" done.2).tools.get? "other").map (·.unresolved))) =
      some ([("/work/a.gpt".toList, false, ["/work/a.gpt:1"]),
          ("/work/b.json".toList, true, ["sys.read", "other"])],
        some [("sys.read", "mine"), ("other", "")], some "sys.read", some ["sys.find"]) := by
    decide +kernel
  cases completed : (complete (.of "a.gpt") clash).1 with
  | error error => simp [completed, Except.toOption] at ran
  | ok done =>
    obtain ⟨load, entry⟩ := done
    simp only [completed, Except.toOption, Option.map_some, Option.some.injEq, Prod.mk.injEq] at ran
    obtain ⟨shape, names, builtin, rest⟩ := ran
    refine ⟨load, entry, rfl, agree_of_nodup (by rw [shape]; decide), ?_,
      Option.map_eq_some_iff.mp rest⟩
    obtain ⟨source, found, listed⟩ := Option.map_eq_some_iff.mp names
    obtain ⟨own, member, same⟩ : ∃ own ∈ source.tools, (own.id, own.name) = ("sys.read", "mine") :=
      List.mem_map.mp (listed ▸ List.mem_cons_self)
    obtain ⟨id, name⟩ := Prod.mk.inj same
    refine ⟨own, ⟨_, source, found, member⟩, ?_⟩
    intro tool stored
    rw [id] at stored
    rw [stored, Option.map_some, Option.some.injEq] at builtin
    rw [builtin, name]
    decide

end ToolGraph.Load
