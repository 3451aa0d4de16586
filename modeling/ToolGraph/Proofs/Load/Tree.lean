import ToolGraph.Proofs.Load.Ending
import ToolGraph.Proofs.Load.Linked
import ToolGraph.Proofs.Placed

/-!
Loads of files below a directory. Where no reference leads above the directory, whatever a load meets
lies below it, and a tool of a source is the one that the load has by its id.
-/
namespace ToolGraph
open Entries ToolGraph.Path

structure IsTree (model : String) (files : List (List Char) → Option Bytes) : Prop where
  native : ∀ {names content}, AreNames names → files names = some content →
    ∃ text, Source.IsNative content text
  keeps : ∀ {names content plain}, AreNames names → files names = some content →
    Source.Holds model content plain → ∀ tool ∈ plain.tools, ∀ reference ∈ tool.tools,
      tool.Keeps names.dropLast reference

theorem isTree_of_table {model : String} {table : Entries (List (List Char)) Bytes}
    (native : ∀ file ∈ table, (Text.decode? file.2).isSome ∧
      Document.isArtifact file.2 = .ok false ∧ Document.openApiVersion file.2 = .ok none)
    (keeps : ∀ file ∈ table, ∀ text ∈ Text.decode? file.2,
      ∀ tools ∈ (Block.parse (String.ofList text) "" "" model 1).toOption,
        ∀ tool ∈ tools, ∀ reference ∈ tool.tools, tool.Keeps file.1.dropLast reference) :
    IsTree model table.get? where
  native := by
    intro names content _ held
    obtain ⟨decodes, noArtifact, noVersion⟩ := native _ (mem_of_get? held)
    obtain ⟨text, decodes⟩ := Option.isSome_iff_exists.mp decodes
    exact ⟨text, decodes, noArtifact, noVersion⟩
  keeps := by
    intro names content plain _ held defines
    obtain ⟨text, native, parsed⟩ := defines.native
    exact keeps _ (mem_of_get? held) text native.text _ (toOption_eq_some.mpr parsed)

/-- A canonical location below a directory. -/
def World.Lies (world : World) (dir location : List Char) : Prop :=
  ∃ names, AreNames names ∧ location = under dir (world.files.enter dir names)

namespace Load

section steps
variable {context : LoadContext} {answers : Answers} {root : List Char} {first : Source}
  {state later : Progress}

theorem Step.locations (sound : state.Sound context answers root first)
    (step : Step context answers state later) {location : List Char}
    (known : location ∈ later.load.sources.keys) :
    location ∈ state.load.sources.keys ∨ ∃ origin tool reference subTool,
      Refers state.load origin tool reference ∧
        Destination.find context.outlook tool reference = .ok (.source location subTool) := by
  cases step with
  | arrive awaited =>
    rcases mem_keys_put.mp known with rfl | old
    · exact .inl (mem_keys_of_get? awaited)
    · exact .inl old
  | lose | openSource | giveUp | cancelJob | cancelWaiter => exact .inl known
  | resume =>
    rw [sources_answer] at known
    exact .inl known
  | @perform job before after next =>
    rw [load_perform, keys_follow, List.mem_append] at known
    refine known.imp_right fun called => ?_
    obtain ⟨call, member, rfl⟩ := List.mem_map.mp called
    obtain ⟨-, tool, reference, subTool, leads⟩ := mem_calls member
    have refers := sound.jobs (next ▸ List.mem_append_right before List.mem_cons_self)
    exact ⟨job.origin, call.tool, call.reference, subTool, tool ▸ reference ▸ refers, leads⟩

end steps

section tree
variable {request : LoadRequest} {world : World} {dir root : List Char} {first : Source}
  {files : List (List Char) → Option Bytes} {load : Load}

/-- A load that has met nothing but sources below a directory. -/
structure InTree (request : LoadRequest) (world : World) (dir root : List Char) (first : Source)
    (load : Load) : Prop where
  sound : load.Sound (request.context world) (world.answers request) root first
  read : ∀ {location source}, load.source? location = some source →
    ∃ fetched, world.answers request location (.ok fetched) ∧
      Source.read (request.context world).base request.settings.defaultModel fetched = .ok source
  lies : ∀ {location}, location ∈ load.sources.keys → world.Lies dir location

theorem InTree.wellFormed (inTree : load.InTree request world dir root first) {location : List Char}
    {source : Source} (found : load.source? location = some source) : source.WellFormed := by
  obtain ⟨fetched, -, read⟩ := inTree.read found
  exact (Source.wellFormed_of_read read).2

theorem toOption_of_answers (holds : world.files.HoldsBelow dir files) {names : List (List Char)}
    (each : AreNames names) {result : Except Error Fetched}
    (answer : world.answers request (under dir (world.files.enter dir names)) result) :
    result.toOption = (files (world.files.settle dir names)).map
      (Fetched.mk (under dir (world.files.settle dir names))) := by
  obtain ⟨later, past, rfl⟩ := answer
  obtain ⟨-, same⟩ := past.keeps
  rw [← same] at holds ⊢
  exact Fetch.location_under holds (FileTree.areNames_enter each) request.patience

theorem read_of_answers (holds : world.files.HoldsBelow dir files) {names : List (List Char)}
    (each : AreNames names) {content : Bytes} {plain : Source} {model : String}
    (held : files (world.files.settle dir names) = some content)
    (defines : Source.Holds model content plain) {result : Except Error Fetched}
    (answer : world.answers request (under dir (world.files.enter dir names)) result)
    (base : List Char) :
    result.bind (Source.read base model) = .ok (plain.placed dir (world.files.settle dir names)) := by
  have answered := toOption_of_answers holds each answer
  rw [held, Option.map_some, toOption_eq_some] at answered
  subst answered
  obtain ⟨text, native, -⟩ := defines.native
  exact (Source.read_under holds.normal (FileTree.areNames_settle each) (holds.ne_nil held)
    native).mpr ⟨plain, defines, rfl⟩

variable (holds : world.files.HoldsBelow dir files)
  (tree : IsTree request.settings.defaultModel files)
  (inTree : load.InTree request world dir root first)
include holds tree inTree

theorem InTree.exists_placed {names : List (List Char)} (each : AreNames names) {source : Source}
    (found : load.source? (under dir (world.files.enter dir names)) = some source) :
    ∃ content plain, files (world.files.settle dir names) = some content ∧
      Source.Holds request.settings.defaultModel content plain ∧
      source = plain.placed dir (world.files.settle dir names) := by
  obtain ⟨fetched, answer, read⟩ := inTree.read found
  have answered := toOption_of_answers holds each answer
  obtain ⟨content, held, rfl⟩ := Option.map_eq_some_iff.mp answered.symm
  have each' : AreNames (world.files.settle dir names) := FileTree.areNames_settle each
  obtain ⟨text, native⟩ := tree.native each' held
  obtain ⟨plain, defines, rfl⟩ :=
    (Source.read_under holds.normal each' (holds.ne_nil held) native).mp read
  exact ⟨content, plain, held, defines, rfl⟩

theorem InTree.get?_own {location : List Char} {source : Source} {tool : Tool}
    (found : load.source? location = some source) (member : tool ∈ source.tools) :
    load.tools.get? tool.id = some tool := by
  obtain ⟨other, stored⟩ := mem_keys_iff.mp (inTree.sound.stored found tool member)
  have same : other.id = tool.id := inTree.sound.tool_id stored
  have wellFormed := inTree.wellFormed found
  obtain ⟨names, each, rfl⟩ := inTree.lies (mem_keys_of_source? found)
  obtain ⟨content, plain, held, defines, rfl⟩ := inTree.exists_placed holds tree each found
  rcases inTree.sound.known stored with ⟨location', source', found', member'⟩ | ⟨_, _, _, -, leads⟩
  · have wellFormed' := inTree.wellFormed found'
    obtain ⟨names', each', rfl⟩ := inTree.lies (mem_keys_of_source? found')
    obtain ⟨content', plain', held', defines', rfl⟩ := inTree.exists_placed holds tree each' found'
    have places := Source.location_eq_of_id wellFormed' wellFormed defines'.live defines.live
      member' member same
    have names := under_injective holds.normal (FileTree.areNames_settle each')
      (FileTree.areNames_settle each) places
    rw [names] at held' member'
    obtain rfl := Option.some.inj (held.symm.trans held')
    obtain rfl := defines.unique defines'
    rw [stored, List.inj_on_of_nodup_map wellFormed.distinct member' member same]
  · obtain ⟨line, named⟩ := (wellFormed.lined defines.live).ids tool member
    have plain := colon_not_mem_id (builtin_of_find leads)
    rw [same, named] at plain
    exact absurd (Block.colon_mem_idAt _ _) plain

theorem InTree.get?_builtin {tool : Tool} (known : IsBuiltin tool)
    (stored : load.tools.has tool.id) : load.tools.get? tool.id = some tool := by
  obtain ⟨other, stored⟩ := mem_keys_iff.mp (has_iff.mp stored)
  have same : other.id = tool.id := inTree.sound.tool_id stored
  rcases inTree.sound.known stored with ⟨location, source, found, member⟩ | ⟨_, _, _, -, leads⟩
  · have wellFormed := inTree.wellFormed found
    obtain ⟨names, each, rfl⟩ := inTree.lies (mem_keys_of_source? found)
    obtain ⟨content, plain, -, defines, rfl⟩ := inTree.exists_placed holds tree each found
    obtain ⟨line, named⟩ := (wellFormed.lined defines.live).ids other member
    have plain := colon_not_mem_id known
    rw [← same, named] at plain
    exact absurd (Block.colon_mem_idAt _ _) plain
  · obtain ⟨name, found⟩ := known
    obtain ⟨name', found'⟩ := builtin_of_find leads
    rw [stored, builtin_unique found' found same]

theorem InTree.mem_references_iff {location : List Char} {source : Source} {tool : Tool}
    {reference : String} (found : load.source? location = some source) :
    (tool, reference) ∈ load.references source ↔ tool ∈ source.tools ∧ reference ∈ tool.tools := by
  have unmapped : source.linked = false ∧ ∀ tool ∈ source.tools, tool.unresolved = tool.tools := by
    obtain ⟨names, each, rfl⟩ := inTree.lies (mem_keys_of_source? found)
    obtain ⟨content, plain, -, defines, rfl⟩ := inTree.exists_placed holds tree each found
    refine ⟨defines.live, fun tool member => ?_⟩
    obtain ⟨own, present, rfl⟩ := Source.mem_tools_placed.mp member
    have none : (own.placed dir (world.files.settle dir names)).toolMapping = [] := by
      simp [Tool.placed, Tool.relabel, defines.toolMapping present, mapValues]
    simp [Tool.unresolved, none, has]
  rw [Load.mem_references_iff]
  constructor
  · rintro ⟨-, -, ⟨own, member, stored⟩, present⟩
    rw [inTree.get?_own holds tree found member] at stored
    obtain rfl := Option.some.inj stored
    exact ⟨member, unmapped.2 own member ▸ present⟩
  · rintro ⟨member, present⟩
    rw [← unmapped.2 tool member] at present
    exact ⟨unmapped.1, ⟨tool, member, List.ne_nil_of_mem present⟩,
      ⟨tool, member, inTree.get?_own holds tree found member⟩, present⟩

theorem InTree.few : load.readLocations.length ≤ sourceBound world := by
  refine (length_lt_sourceBound (nodup_readLocations inTree.sound.apart) ?_).le
  intro location member
  obtain ⟨source, found⟩ :=
    Option.isSome_iff_exists.mp ((mem_readLocations_iff inTree.sound.apart).mp member)
  obtain ⟨names, each, rfl⟩ := inTree.lies (mem_keys_of_source? found)
  obtain ⟨content, -, held, -, -⟩ := inTree.exists_placed holds tree each found
  rw [← holds.content (FileTree.areNames_settle each)] at held
  have inner := isNormal_under holds.normal (@FileTree.areNames_enter world.files dir names each)
  have canonical := @World.canonical_under dir _ world holds.normal
    (@FileTree.areNames_enter world.files dir names each)
  rw [World.canonical, Canonical.location_of_isAbsolute inner.isAbsolute] at canonical
  have longer := @Canonical.length_le_ofPath world.place _ inner
  rw [Except.ok.inj canonical] at longer
  have settled := isNormal_under holds.normal (@FileTree.areNames_settle world.files dir names each)
  exact (longer.trans (length_le_real settled)).trans
    (length_le_longestLocation (mem_keys_of_get? held))

/-- A reference that is looked up is one of a tool of a file, and stays below the directory. -/
theorem InTree.exists_own {origin : List Char} {tool : Tool} {reference : String}
    (refers : Refers load origin tool reference) :
    ∃ (names : List (List Char)) (plain : Source) (own : Tool), AreNames names ∧
      load.source? (under dir (world.files.enter dir names)) =
        some (plain.placed dir (world.files.settle dir names)) ∧
      own ∈ plain.tools ∧ reference ∈ own.tools ∧
      tool = own.placed dir (world.files.settle dir names) ∧
      own.Keeps (world.files.settle dir names).dropLast reference := by
  obtain ⟨location, source, found, -, member⟩ := refers
  obtain ⟨among, present⟩ := (inTree.mem_references_iff holds tree found).mp member
  obtain ⟨names, each, rfl⟩ := inTree.lies (mem_keys_of_source? found)
  obtain ⟨content, plain, held, defines, rfl⟩ := inTree.exists_placed holds tree each found
  obtain ⟨own, member', rfl⟩ := Source.mem_tools_placed.mp among
  exact ⟨names, plain, own, each, found, member', present, rfl,
    tree.keeps (FileTree.areNames_settle each) held defines own member' reference present⟩

omit inTree in
theorem inTree_of_steps {text : String} (written : request.root = .reference text)
    (read : RootRead request world.place (world.answers request) root first)
    (lies : world.Lies dir root) {state : Progress}
    (steps : Steps (request.context world) (world.answers request) (Progress.rooted root first)
      state) : state.load.InTree request world dir root first := by
  have answered : ∀ {load : Load},
      load.Sound (request.context world) (world.answers request) root first →
      (∀ {location}, location ∈ load.sources.keys → world.Lies dir location) →
      load.InTree request world dir root first := by
    intro load sound lies
    refine ⟨sound, ?_, lies⟩
    intro location source found
    by_cases here : location = root
    · subst here
      obtain rfl := Option.some.inj (sound.rooted.symm.trans found)
      obtain ⟨fetched, ⟨-, answer⟩, read⟩ := read
      unfold RootAnswers at answer
      rw [written] at answer
      exact ⟨fetched, answer, read⟩
    · exact sound.read found here
  have sound := Progress.sound_rooted (request.context world) (world.answers request) root first
  induction steps with
  | refl =>
    refine answered sound.load fun {location} known => ?_
    rcases mem_keys_put.mp known with rfl | old
    · exact lies
    · simp [start, keys] at old
  | @tail state later steps step ih =>
    have before := sound.steps steps
    refine answered (before.step step).load fun {location} known => ?_
    rcases step.locations before known with old | ⟨_, tool, reference, subTool, refers, leads⟩
    · exact ih.lies old
    · obtain ⟨names, plain, own, each, -, -, -, rfl, keeps⟩ := ih.exists_own holds tree refers
      have each' := @FileTree.areNames_settle world.files dir names each
      have leads := toOption_eq_some.mpr leads
      change (Destination.find world.outlook _ _).toOption = _ at leads
      rw [Lead.find_placed holds.normal each' keeps, Option.map_eq_some_iff] at leads
      obtain ⟨lead, found, same⟩ := leads
      cases lead with
      | file target subTool =>
        obtain ⟨rfl, -⟩ := Destination.source.inj same
        exact ⟨target, Lead.areNames_of_find each' found, rfl⟩
      | sibling | builtin => cases same

end tree
end Load
end ToolGraph
