import ToolGraph.Proofs.Load.Confluence
import ToolGraph.Proofs.Load.Inline
import ToolGraph.Proofs.Load.Tree

/-!
The same files below two directories. A load of one of them that comes to its end has all that a load
of the same file below the other directory ever meets, up to the directory, and nothing of it fails. So
both loads come to their ends or none does, and their programs differ in the directory alone.
-/
namespace ToolGraph
open Entries ToolGraph.Path

def Lead.Target (load : Load) (tree : FileTree) (dir : List Char) (names : List (List Char))
    (target : String) : Lead → Prop
  | .sibling id => target = String.ofList (under dir names) ++ id
  | .builtin tool => target = tool.id ∧ load.tools.has tool.id
  | .file inner subTool => ∃ source, load.source? (under dir (tree.enter dir inner)) = some source ∧
      source.select subTool = .ok target

namespace Load

/-- A tool and the same tool below another directory. Built-in tools lie below none. -/
inductive Twins (dir dir' : List Char) : Tool → Tool → Prop where
  | builtin {tool : Tool} (known : IsBuiltin tool) : Twins dir dir' tool tool
  | placed {names : List (List Char)} {own : Tool} (each : AreNames names) (some : names ≠ []) :
      Twins dir dir' (own.placed dir names) (own.placed dir' names)

theorem Twins.symm {dir dir' : List Char} {tool twin : Tool} (twins : Twins dir dir' tool twin) :
    Twins dir' dir twin tool := by
  cases twins with
  | builtin known => exact .builtin known
  | placed each some => exact .placed each some

theorem relative_id {tool : Tool} (known : IsBuiltin tool) :
    Path.isAbsolute tool.id.toList = false := by
  obtain ⟨name, found⟩ := known
  obtain ⟨builtin, member, rfl⟩ := Option.map_eq_some_iff.mp found
  have each : ∀ builtin ∈ Builtin.all, Path.isAbsolute builtin.name.toList = false := by decide
  exact each builtin (List.mem_of_find?_eq_some member)

theorem Twins.rebase {dir dir' : List Char} (normal : IsNormal dir) (normal' : IsNormal dir')
    {tool twin : Tool} (twins : Twins dir dir' tool twin) : tool.rebase dir dir' = twin := by
  cases twins with
  | placed each some => exact Tool.rebase_placed normal normal' each some _
  | builtin known =>
    have same := rebase_of_relative normal dir' (relative_id known)
    have empty : Path.rebase dir dir' "" = "" := rebase_of_relative normal dir' rfl
    obtain ⟨name, found⟩ := known
    obtain ⟨builtin, -, rfl⟩ := Option.map_eq_some_iff.mp found
    simp only [Tool.rebase, Tool.relabel, same]
    simp [Builtin.tool, Tool.named, empty, rebaseDirectory_empty normal, mapValues]

theorem Twins.rebase_id {dir dir' : List Char} (normal : IsNormal dir) (normal' : IsNormal dir')
    {tool twin : Tool} (twins : Twins dir dir' tool twin) :
    Path.rebase dir dir' tool.id = twin.id := by
  have place : (tool.rebase dir dir').id = twin.id :=
    congrArg Tool.id (twins.rebase normal normal')
  exact place

theorem Resolves.exists_lead {request : LoadRequest} {world : World} {load : Load}
    {dir : List Char} {names : List (List Char)} {own : Tool} {reference target : String}
    (normal : IsNormal dir) (each : AreNames names) (keeps : own.Keeps names.dropLast reference)
    (resolves : Resolves (request.context world) load (own.placed dir names) reference target) :
    ∃ lead, Lead.find? own names.dropLast reference = some lead ∧
      lead.Target load world.files dir names target := by
  have found : ∀ {destination},
      Destination.find (request.context world).outlook (own.placed dir names) reference =
        .ok destination →
      ∃ lead, Lead.find? own names.dropLast reference = some lead ∧
        lead.place world.files dir names = destination := by
    intro destination leads
    have leads := toOption_eq_some.mpr leads
    change (Destination.find world.outlook _ _).toOption = _ at leads
    rw [Lead.find_placed normal each keeps] at leads
    exact Option.map_eq_some_iff.mp leads
  cases resolves with
  | sibling leads =>
    obtain ⟨lead, found, same⟩ := found leads
    refine ⟨lead, found, ?_⟩
    cases lead with
    | sibling id => exact (Destination.sibling.inj same).symm
    | builtin | file => cases same
  | builtin leads known =>
    obtain ⟨lead, found, same⟩ := found leads
    refine ⟨lead, found, ?_⟩
    cases lead with
    | builtin tool =>
      obtain rfl := Destination.builtin.inj same
      exact ⟨rfl, known⟩
    | sibling | file => cases same
  | source leads held selected =>
    obtain ⟨lead, found, same⟩ := found leads
    refine ⟨lead, found, ?_⟩
    cases lead with
    | file inner subTool =>
      obtain ⟨rfl, rfl⟩ := Destination.source.inj same
      exact ⟨_, held, selected⟩
    | sibling | builtin => cases same

/-- A reference of a tool below the second directory is one of the same tool below the first, where
it leads to the target that its lead comes to. -/
structure Shares (load : Load) (tree : FileTree) (dir dir' : List Char) (tool : Tool)
    (reference : String) (names : List (List Char)) (own : Tool) (lead : Lead) (target : String) :
    Prop where
  each : AreNames names
  deep : names ≠ []
  placed : tool = own.placed dir' names
  keeps : own.Keeps names.dropLast reference
  leads : Lead.find? own names.dropLast reference = some lead
  stored : load.tools.get? (own.placed dir names).id = some (own.placed dir names)
  mapped : load.target? (own.placed dir names).id reference = some target
  target : lead.Target load tree dir names target

section moved
variable {files : List (List Char) → Option Bytes} {request request' : LoadRequest}
  {world world' : World} {dir dir' root root' : List Char} {first first' : Source}
  {left right : Load}

/-- Two loads of the same file below two directories that hold the same, the first of which has come
to its end. -/
structure Moved (files : List (List Char) → Option Bytes) (request request' : LoadRequest)
    (world world' : World) (dir dir' root root' : List Char) (first first' : Source)
    (left right : Load) : Prop where
  holds : world.files.HoldsBelow dir files
  holds' : world'.files.HoldsBelow dir' files
  tree : IsTree request.settings.defaultModel files
  model : request'.settings.defaultModel = request.settings.defaultModel
  whole : left.Whole (request.context world) (world.answers request) root first
  inTree : left.InTree request world dir root first
  inTree' : right.InTree request' world' dir' root' first'
  root : ∃ names, AreNames names ∧ root = under dir (world.files.enter dir names) ∧
    root' = under dir' (world'.files.enter dir' names)

namespace Moved
variable (moved : Moved files request request' world world' dir dir' root root' first first' left right)
include moved

theorem tree' : IsTree request'.settings.defaultModel files := moved.model ▸ moved.tree

/-- A source of the first load is that of a file, and a source of the other load at the same names is
the same source in its place. -/
theorem exists_plain {names : List (List Char)} (each : AreNames names) {source : Source}
    (found : left.source? (under dir (world.files.enter dir names)) = some source) :
    ∃ content plain, files (world.files.settle dir names) = some content ∧
      Source.Holds request.settings.defaultModel content plain ∧
      source = plain.placed dir (world.files.settle dir names) ∧
      world'.files.settle dir' names = world.files.settle dir names ∧
      ∀ {source'}, right.source? (under dir' (world'.files.enter dir' names)) = some source' →
        source' = plain.placed dir' (world.files.settle dir names) := by
  obtain ⟨content, plain, held, defines, rfl⟩ :=
    moved.inTree.exists_placed moved.holds moved.tree each found
  obtain ⟨-, same⟩ := moved.holds'.settle_eq each (Option.isSome_of_eq_some held)
  refine ⟨content, plain, held, defines, rfl, same, ?_⟩
  intro source' found'
  obtain ⟨content', plain', held', defines', rfl⟩ :=
    moved.inTree'.exists_placed moved.holds' moved.tree' each found'
  rw [same] at held' ⊢
  obtain rfl := Option.some.inj (held.symm.trans held')
  rw [moved.model] at defines'
  rw [defines.unique defines']

theorem select_eq {names : List (List Char)} (each : AreNames names) {source source' : Source}
    (found : left.source? (under dir (world.files.enter dir names)) = some source)
    (found' : right.source? (under dir' (world'.files.enter dir' names)) = some source')
    {name target : String} (selected : source.select name = .ok target) :
    source'.select name = .ok (rebase dir dir' target) := by
  obtain ⟨content, plain, held, -, rfl, -, same⟩ := moved.exists_plain each found
  obtain rfl := same found'
  exact Source.select_rebase moved.holds.normal moved.holds'.normal (FileTree.areNames_settle each)
    (moved.holds.ne_nil held) selected

theorem shares_of_source? {names : List (List Char)} (each : AreNames names)
    {source source' : Source}
    (found : left.source? (under dir (world.files.enter dir names)) = some source)
    (found' : right.source? (under dir' (world'.files.enter dir' names)) = some source') {tool : Tool}
    {reference : String} (refers : (tool, reference) ∈ right.references source') :
    ∃ own lead target, Shares left world.files dir dir' tool reference
      (world.files.settle dir names) own lead target := by
  obtain ⟨content, plain, held, defines, rfl, -, same⟩ := moved.exists_plain each found
  obtain rfl := same found'
  have each' := @FileTree.areNames_settle world.files dir names each
  obtain ⟨among, present⟩ :=
    (moved.inTree'.mem_references_iff moved.holds' moved.tree' found').mp refers
  obtain ⟨own, member, rfl⟩ := Source.mem_tools_placed.mp among
  have keeps := moved.tree.keeps each' held defines own member reference present
  have among := (@Source.mem_tools_placed dir (world.files.settle dir names) plain _).mpr
    ⟨own, member, rfl⟩
  have refers := (moved.inTree.mem_references_iff moved.holds moved.tree found).mpr ⟨among, present⟩
  obtain ⟨target, mapped, resolves⟩ := moved.whole.resolves found refers
  obtain ⟨lead, leads, comes⟩ := resolves.exists_lead moved.holds.normal each' keeps
  exact ⟨own, lead, target, each', moved.holds.ne_nil held, rfl, keeps, leads,
    moved.inTree.get?_own moved.holds moved.tree found among, mapped, comes⟩

theorem find_of_shares {tool own : Tool} {reference target : String} {names : List (List Char)}
    {lead : Lead} (shares : Shares left world.files dir dir' tool reference names own lead target) :
    Destination.find (request'.context world').outlook tool reference =
      .ok (lead.place world'.files dir' names) := by
  have found := @Lead.find_placed dir' names world' own reference moved.holds'.normal shares.each
    shares.keeps
  rwa [← shares.placed, shares.leads, Option.map_some, toOption_eq_some] at found

theorem exists_source? {location : List Char}
    (reached : Reached (request'.context world') right root' location) :
    ∃ names source, AreNames names ∧ location = under dir' (world'.files.enter dir' names) ∧
      left.source? (under dir (world.files.enter dir names)) = some source := by
  induction reached with
  | root =>
    obtain ⟨names, each, here, there⟩ := moved.root
    exact ⟨names, first, each, there, here ▸ moved.whole.sound.rooted⟩
  | @next location next source' tool reference subTool reached found refers leads ih =>
    obtain ⟨names, source, each, rfl, own⟩ := ih
    obtain ⟨own, lead, target, shares⟩ := moved.shares_of_source? each own found refers
    have same := Except.ok.inj ((moved.find_of_shares shares).symm.trans leads)
    have comes := shares.target
    cases lead with
    | file inner subTool =>
      obtain ⟨rfl, -⟩ := Destination.source.inj same
      obtain ⟨source, known, -⟩ := comes
      exact ⟨inner, source, Lead.areNames_of_find shares.each shares.leads, rfl, known⟩
    | sibling | builtin => cases same

theorem exists_names {location : List Char} {source' : Source}
    (found : right.source? location = some source') :
    ∃ names source, AreNames names ∧ location = under dir' (world'.files.enter dir' names) ∧
      left.source? (under dir (world.files.enter dir names)) = some source :=
  moved.exists_source? (moved.inTree'.sound.reached (mem_keys_of_source? found))

theorem exists_shares {origin : List Char} {tool : Tool} {reference : String}
    (refers : Refers right origin tool reference) :
    ∃ names own lead target, Shares left world.files dir dir' tool reference names own lead
      target := by
  obtain ⟨location, source', found', -, member⟩ := refers
  obtain ⟨names, source, each, rfl, found⟩ := moved.exists_names found'
  obtain ⟨own, lead, target, shares⟩ := moved.shares_of_source? each found found' member
  exact ⟨_, own, lead, target, shares⟩

theorem not_fails {origin : List Char} {tool : Tool} {reference : String} {error : Error}
    (refers : Refers right origin tool reference) :
    ¬ Fails (request'.context world') (world'.answers request') root' right tool reference error := by
  intro fails
  obtain ⟨names, own, lead, target, shares⟩ := moved.exists_shares refers
  have found := moved.find_of_shares shares
  have comes := shares.target
  cases fails with
  | nowhere leads => simp [found] at leads
  | unnamed leads held refused =>
    obtain same := Except.ok.inj (found.symm.trans leads)
    cases lead with
    | file inner subTool =>
      obtain ⟨rfl, rfl⟩ := Destination.source.inj same
      obtain ⟨source, known, selected⟩ := comes
      have each := Lead.areNames_of_find shares.each shares.leads
      rw [moved.select_eq each known held selected] at refused
      cases refused
    | sibling | builtin => cases same
  | lost leads other answer refused =>
    obtain same := Except.ok.inj (found.symm.trans leads)
    cases lead with
    | file inner subTool =>
      obtain ⟨rfl, -⟩ := Destination.source.inj same
      obtain ⟨source, known, -⟩ := comes
      have each := Lead.areNames_of_find shares.each shares.leads
      obtain ⟨content, plain, held, defines, -, settled, -⟩ := moved.exists_plain each known
      rw [← settled] at held
      rw [← moved.model] at defines
      have read := read_of_answers moved.holds' each held defines answer
        (request'.context world').base
      exact absurd (read.symm.trans refused) (by simp)
    | sibling | builtin => cases same

theorem exists_twin {id : String} {twin : Tool} (found : right.tools.get? id = some twin) :
    ∃ tool, Twins dir dir' tool twin ∧ left.tools.get? tool.id = some tool := by
  rcases moved.inTree'.sound.known found with ⟨location, source', at_, member⟩ | known
  · obtain ⟨names, source, each, rfl, own⟩ := moved.exists_names at_
    obtain ⟨content, plain, held, -, rfl, -, same⟩ := moved.exists_plain each own
    obtain rfl := same at_
    obtain ⟨tool, present, rfl⟩ := Source.mem_tools_placed.mp member
    have among := (@Source.mem_tools_placed dir (world.files.settle dir names) plain _).mpr
      ⟨tool, present, rfl⟩
    exact ⟨_, .placed (FileTree.areNames_settle each) (moved.holds.ne_nil held),
      moved.inTree.get?_own moved.holds moved.tree own among⟩
  · obtain ⟨origin, user, reference, refers, leads⟩ := known
    obtain ⟨names, own, lead, target, shares⟩ := moved.exists_shares refers
    have same := Except.ok.inj ((moved.find_of_shares shares).symm.trans leads)
    have comes := shares.target
    cases lead with
    | builtin tool =>
      obtain rfl := Destination.builtin.inj same
      have known := Lead.builtin_of_find shares.leads
      exact ⟨tool, .builtin known, moved.inTree.get?_builtin moved.holds moved.tree known comes.2⟩
    | sibling | file => cases same

theorem exists_target (whole : right.Whole (request'.context world') (world'.answers request') root'
      first') {origin : List Char} {twin : Tool} {reference : String}
    (refers : Refers right origin twin reference) :
    ∃ tool target, Twins dir dir' tool twin ∧ left.target? tool.id reference = some target ∧
      right.target? twin.id reference = some (rebase dir dir' target) := by
  obtain ⟨names, own, lead, target, shares⟩ := moved.exists_shares refers
  obtain ⟨location, source', found, -, member⟩ := refers
  obtain ⟨target', mapped, resolves⟩ := whole.resolves found member
  rw [shares.placed] at resolves ⊢
  refine ⟨_, target, .placed shares.each shares.deep, shares.mapped, ?_⟩
  rw [← shares.placed, mapped, Option.some_inj]
  obtain ⟨lead', leads, comes'⟩ :=
    resolves.exists_lead moved.holds'.normal shares.each shares.keeps
  obtain rfl := Option.some.inj (shares.leads.symm.trans leads)
  have comes := shares.target
  cases lead with
  | sibling id =>
    have comes : target = _ := comes
    have comes' : target' = _ := comes'
    rw [comes, comes', rebase_under moved.holds.normal moved.holds'.normal shares.each shares.deep]
  | builtin tool =>
    have known := Lead.builtin_of_find shares.leads
    rw [comes.1, comes'.1, rebase_of_relative moved.holds.normal dir' (relative_id known)]
  | file inner subTool =>
    obtain ⟨source, held, selected⟩ := comes
    obtain ⟨source', held', selected'⟩ := comes'
    have each := Lead.areNames_of_find shares.each shares.leads
    exact Except.ok.inj (selected'.symm.trans (moved.select_eq each held held' selected))

/-! ### Two loads that have come to their ends -/

theorem symm (whole : right.Whole (request'.context world') (world'.answers request') root'
      first') :
    Moved files request' request world' world dir' dir root' root first' first right left where
  holds := moved.holds'
  holds' := moved.holds
  tree := moved.tree'
  model := moved.model.symm
  whole := whole
  inTree := moved.inTree'
  inTree' := moved.inTree
  root := by
    obtain ⟨names, each, here, there⟩ := moved.root
    exact ⟨names, each, there, here⟩

variable (whole : right.Whole (request'.context world') (world'.answers request') root' first')
include whole

theorem links_eq {tool twin : Tool} (twins : Twins dir dir' tool twin)
    (found : right.tools.get? twin.id = some twin) :
    (left.links tool).mapValues (rebase dir dir') = right.links twin := by
  have normal := moved.holds.normal
  have normal' := moved.holds'.normal
  have place : (tool.rebase dir dir').tools = twin.tools :=
    congrArg Tool.tools (twins.rebase normal normal')
  have same : tool.tools = twin.tools := place
  have target : ∀ reference ∈ tool.tools, right.target? twin.id reference =
      (left.target? tool.id reference).map (rebase dir dir') := by
    intro reference member
    rcases moved.inTree'.sound.known found with ⟨location, source', at_, own⟩ | ⟨_, _, _, -, leads⟩
    · have refers := (moved.inTree'.mem_references_iff moved.holds' moved.tree' at_).mpr
        ⟨own, same ▸ member⟩
      obtain ⟨other, target, twins', mapped, mapped'⟩ :=
        moved.exists_target whole ⟨location, source', at_, rfl, refers⟩
      obtain rfl := (twins'.symm.rebase normal' normal).symm.trans (twins.symm.rebase normal' normal)
      rw [mapped, mapped', Option.map_some]
    · obtain ⟨name, known⟩ := builtin_of_find leads
      rw [same, (targets_builtin known).2.1] at member
      cases member
  rw [links, links, ← same, mapValues, List.map_filterMap]
  refine List.filterMap_congr fun reference member => ?_
  rw [target reference member, Option.map_map, Option.map_map]
  rfl

theorem finished_eq {tool twin : Tool} (twins : Twins dir dir' tool twin)
    (found : right.tools.get? twin.id = some twin) :
    (left.finished tool).rebase dir dir' = right.finished twin := by
  have place := twins.rebase moved.holds.normal moved.holds'.normal
  have mapping : (tool.rebase dir dir').toolMapping = twin.toolMapping :=
    congrArg Tool.toolMapping place
  have mapping : tool.toolMapping.mapValues (rebase dir dir') = twin.toolMapping := mapping
  calc (left.finished tool).rebase dir dir'
      = { tool.rebase dir dir' with
          toolMapping := (left.finished tool).toolMapping.mapValues (rebase dir dir') } := by
        rw [Load.finished_eq left tool]
        rfl
    _ = { twin with toolMapping := (right.finished twin).toolMapping } := by
        rw [place, toolMapping_finished, toolMapping_finished, mapValues_merge, mapping,
          moved.links_eq whole twins found]
    _ = right.finished twin := (Load.finished_eq right twin).symm

theorem exists_place {id : String} {tool : Tool} (found : left.tools.get? id = some tool) :
    ∃ twin, Twins dir dir' tool twin ∧ rebase dir dir' id = twin.id ∧
      right.tools.get? twin.id = some twin := by
  obtain ⟨twin, twins, known⟩ := (moved.symm whole).exists_twin found
  have named := twins.symm.rebase_id moved.holds.normal moved.holds'.normal
  rw [moved.whole.sound.tool_id found] at named
  exact ⟨twin, twins.symm, named, known⟩

theorem nodup_keys_rebase : (left.tools.keys.map (rebase dir dir')).Nodup := by
  -- The ids can be taken back, as those of the other load have their places in this one.
  have back : ∀ id ∈ left.tools.keys, rebase dir' dir (rebase dir dir' id) = id := by
    intro id member
    obtain ⟨tool, found⟩ := mem_keys_iff.mp member
    obtain ⟨twin, twins, named, known⟩ := moved.exists_place whole found
    rw [named, twins.symm.rebase_id moved.holds'.normal moved.holds.normal]
    exact moved.whole.sound.tool_id found
  refine moved.whole.sound.distinct.map_on fun id member other member' same => ?_
  rw [← back id member, same, back other member']

omit moved whole in
theorem mem_tools_rebase (sound : left.Sound (request.context world) (world.answers request) root
      first) {name entry id : String} {tool : Tool} :
    (id, tool) ∈ ((left.program name entry).rebase dir dir').tools ↔
      ∃ own, left.tools.get? own.id = some own ∧ id = rebase dir dir' own.id ∧
        tool = (left.finished own).rebase dir dir' := by
  simp only [Program.rebase, program, mapValues, List.map_map, List.mem_map]
  constructor
  · rintro ⟨⟨key, own⟩, member, same⟩
    obtain ⟨rfl, rfl⟩ := Prod.mk.inj same
    have found := get?_of_mem sound.distinct member
    obtain rfl := sound.tool_id found
    exact ⟨own, found, rfl, rfl⟩
  · rintro ⟨own, found, rfl, rfl⟩
    exact ⟨(own.id, own), mem_of_get? found, rfl⟩

theorem alike {name name' entry entry' : String} (named : rebase dir dir' name = name')
    (entered : rebase dir dir' entry = entry') :
    ((left.program name entry).rebase dir dir').Alike (right.program name' entry') := by
  have keys : ((left.program name entry).rebase dir dir').tools.keys =
      left.tools.keys.map (rebase dir dir') := by
    simp [Program.rebase, program, mapValues, Entries.keys, Function.comp_def]
  have distinct := moved.nodup_keys_rebase whole
  rw [← keys] at distinct
  refine ⟨named, entered, fun id => Option.ext fun tool => ?_, distinct, ?_⟩
  · simp only [Program.tool?]
    constructor
    · intro found
      obtain ⟨own, known, rfl, rfl⟩ := (mem_tools_rebase moved.whole.sound).mp (mem_of_get? found)
      obtain ⟨twin, twins, same, stored⟩ := moved.exists_place whole known
      rw [same, program, get?_mapValues, stored, Option.map_some,
        moved.finished_eq whole twins stored]
    · intro found
      rw [program, get?_mapValues, Option.map_eq_some_iff] at found
      obtain ⟨twin, stored, rfl⟩ := found
      obtain rfl := whole.sound.tool_id stored
      obtain ⟨own, twins, known⟩ := moved.exists_twin stored
      have same := twins.rebase_id moved.holds.normal moved.holds'.normal
      have finished := moved.finished_eq whole twins stored
      exact get?_of_mem distinct
        ((mem_tools_rebase moved.whole.sound).mpr ⟨own, known, same.symm, finished.symm⟩)
  · simpa only [program, keys_mapValues] using whole.sound.distinct

end Moved
end moved
end Load
end ToolGraph
