import ToolGraph.Load.Source
import ToolGraph.Proofs.Artifact.Reading
import ToolGraph.Proofs.OpenApi

/-!
Sources on their own: no two tools have the same id, and the tables of the tools hold ids of tools of
the same source. Unless the source is an artifact, an id is a line of the source, and a tool has its
references mapped either all or not at all.
-/
namespace ToolGraph

def Tool.Enclosed (tools : List Tool) : Prop :=
  ∀ tool ∈ tools, ∀ target ∈ tool.targets, target ∈ tools.map Tool.id

def Tool.IsWhole (tool : Tool) : Prop :=
  tool.toolMapping = [] ∨ tool.toolMapping.keys = tool.tools.eraseDups

/-- The tools of a source that is no artifact. The names of the tools lead to them. -/
structure Tool.Lined (location : String) (tools : List Tool) : Prop where
  ids : ∀ tool ∈ tools, ∃ line, tool.id = Block.idAt location line
  distinct : (tools.map Tool.id).Nodup
  whole : ∀ tool ∈ tools, tool.IsWhole
  mapped : ∀ tool ∈ tools, ∀ target ∈ tool.toolMapping.values, target ∈ tools.map Tool.id
  named : ∀ tool ∈ tools, ∀ entry ∈ tool.localTools,
    entry.1 = "" ∧ entry.2 = (tools.map Tool.id).headD "" ∨
      ∃ other ∈ tools, entry = (Text.lower other.name, other.id)
  listed : ∀ tool ∈ tools, ∀ other ∈ tools, other.name ≠ "" →
    Text.lower other.name ∈ tool.localTools.keys

theorem Tool.Lined.enclosed {location : String} {first : Tool} {others : List Tool}
    (lined : Tool.Lined location (first :: others)) : Tool.Enclosed (first :: others) := by
  intro tool member target present
  rcases List.mem_append.mp present with mapped | named
  · exact lined.mapped tool member target mapped
  · obtain ⟨entry, known, rfl⟩ := List.mem_map.mp named
    rcases lined.named tool member entry known with ⟨-, same⟩ | ⟨other, own, rfl⟩
    · rw [same]
      exact List.mem_cons_self
    · exact List.mem_map_of_mem own

namespace Block

theorem lined_of_parse {content location workingDir model : String} {firstLine : Int}
    {tools : List Tool} (parsed : parse content location workingDir model firstLine = .ok tools) :
    Tool.Lined location tools := by
  obtain ⟨first, blocks, localTools, increasing, entries, listed, -, rfl⟩ := parse_eq_ok parsed
  have ids : ((first :: blocks).map (tool location workingDir model localTools)).map Tool.id =
      (first :: blocks).map (fun block => idAt location block.start) := by
    rw [List.map_map]
    rfl
  refine ⟨?_, ?_, ?_, ?_, ?_, ?_⟩
  · intro other member
    obtain ⟨block, -, rfl⟩ := List.mem_map.mp member
    exact ⟨block.start, rfl⟩
  · rw [ids, List.Nodup, List.pairwise_map]
    refine increasing.imp ?_
    intro one two before same
    have := (idAt_inj same).2
    omega
  · intro other member
    obtain ⟨block, -, rfl⟩ := List.mem_map.mp member
    exact .inl rfl
  · intro other member target present
    obtain ⟨block, -, rfl⟩ := List.mem_map.mp member
    simp [tool, Entries.values] at present
  · intro other member entry present
    obtain ⟨block, -, rfl⟩ := List.mem_map.mp member
    rcases entries entry present with rfl | ⟨own, known, rfl⟩
    · exact .inl ⟨rfl, rfl⟩
    · exact .inr ⟨_, List.mem_map_of_mem known, rfl⟩
  · intro other member named present some
    obtain ⟨block, -, rfl⟩ := List.mem_map.mp member
    obtain ⟨own, known, rfl⟩ := List.mem_map.mp present
    exact Entries.mem_keys_of_get? (listed own known some)

end Block

namespace OpenApi
open Entries

theorem mem_mapping_rootTool {context : Context} {title description name id : String}
    {names : List String} (named : ∀ name ∈ names, Text.lower name ∈ context.localTools.keys)
    (member : (name, id) ∈ (rootTool context title description names).toolMapping) :
    ∃ entry ∈ context.localTools, entry.2 = id := by
  have found := get?_of_mem (nodup_ofPairs _) member
  obtain ⟨other, known, same⟩ := List.mem_map.mp (mem_of_get?_ofPairs found)
  obtain ⟨rfl, rfl⟩ := Prod.mk.inj same
  obtain ⟨target, given⟩ := mem_keys_iff.mp (named other known)
  rw [given, Option.getD_some]
  exact ⟨_, mem_of_get? given, rfl⟩

theorem lined_of_tools {document : Value} {version : Version} {location workingDir model : String}
    {found : List Tool} (adapted : tools document version location workingDir model = .ok found) :
    Tool.Lined location found := by
  obtain ⟨context, address, title, description, names, operations, rfl, length, entries, listed,
    -, rfl⟩ := tools_eq_ok adapted
  have ids : (rootTool context title description names ::
      operationTools context address 2 (names.zip operations)).map Tool.id =
      idsFrom context.location 1 ((names.zip operations).length + 1) := by
    rw [List.map_cons, ids_operationTools, idsFrom_succ]
    rfl
  have locals : ∀ entry ∈ context.localTools,
      entry.1 = "" ∧ entry.2 = Block.idAt context.location 1 ∨
        ∃ other ∈ rootTool context title description names ::
          operationTools context address 2 (names.zip operations),
          entry = (Text.lower other.name, other.id) := by
    intro entry member
    rcases entries entry member with rfl | rfl | operation
    · exact .inl ⟨rfl, rfl⟩
    · exact .inr ⟨_, List.mem_cons_self, rfl⟩
    · obtain ⟨tool, known, same⟩ := exists_operationTool length operation
      exact .inr ⟨tool, List.mem_cons_of_mem _ known, same⟩
  have shared : ∀ tool ∈ rootTool context title description names ::
      operationTools context address 2 (names.zip operations),
      tool.localTools = context.localTools := by
    intro tool member
    rcases List.mem_cons.mp member with rfl | member
    · rfl
    · exact (mem_operationTools member).2.2
  refine ⟨?_, ids ▸ nodup_idsFrom _ _ _, ?_, ?_, ?_, ?_⟩
  · intro tool member
    have known := ids ▸ List.mem_map_of_mem (f := Tool.id) member
    obtain ⟨offset, -, same⟩ := mem_idsFrom.mp known
    exact ⟨_, same⟩
  · intro tool member
    rcases List.mem_cons.mp member with rfl | member
    · refine .inr ?_
      change keys (ofPairs (names.map _)) = names.eraseDups
      rw [keys_ofPairs, keys, List.map_map]
      exact congrArg List.eraseDups (List.map_id names)
    · exact .inl (mem_operationTools member).2.1
  · intro tool member target present
    obtain ⟨⟨name, _⟩, mapping, rfl⟩ := List.mem_map.mp present
    rcases List.mem_cons.mp member with rfl | member
    · obtain ⟨entry, known, rfl⟩ := mem_mapping_rootTool
        (fun name known => listed name (List.mem_cons_of_mem _ known)) mapping
      rcases locals entry known with ⟨-, same⟩ | ⟨other, own, rfl⟩
      · rw [same]
        exact List.mem_map.mpr ⟨_, List.mem_cons_self, rfl⟩
      · exact List.mem_map_of_mem own
    · simp [(mem_operationTools member).2.1] at mapping
  · intro tool member entry present
    exact locals entry (shared tool member ▸ present)
  · intro tool member other present some
    rw [shared tool member]
    rcases List.mem_cons.mp present with rfl | later
    · exact listed _ List.mem_cons_self
    · exact listed _ (List.mem_cons_of_mem _ (name_operationTools later))

end OpenApi

namespace Source

theorem ofTools_eq_ok {location : List Char} {linked : Bool} {tools : List Tool} {source : Source}
    (made : ofTools location linked tools = .ok source) :
    source.tools = tools ∧ source.location = location ∧ source.linked = linked := by
  cases tools with
  | nil => simp [ofTools] at made
  | cons first others =>
    obtain rfl := Except.ok.inj made
    exact ⟨rfl, rfl, rfl⟩

theorem ids_filterMap_tool? {program : Program} (closed : program.Closed) {ids : List String}
    (known : ∀ id ∈ ids, id ∈ program.tools.keys) :
    (ids.filterMap program.tool?).map Tool.id = ids := by
  induction ids with
  | nil => rfl
  | cons id ids ih =>
    obtain ⟨tool, found⟩ := Entries.mem_keys_iff.mp (known id List.mem_cons_self)
    have found : program.tool? id = some tool := found
    rw [List.filterMap_cons_some found, List.map_cons, closed.ids (Entries.mem_of_get? found),
      ih fun other member => known other (List.mem_cons_of_mem id member)]

theorem ofProgram_spec {location : List Char} {program : Program} {source : Source}
    (closed : program.Closed) (distinct : program.tools.keys.Nodup)
    (made : ofProgram location program = .ok source) :
    source.location = location ∧ source.linked = true ∧ source.first.id = program.entry ∧
      (∀ {id}, id ∈ source.tools.map Tool.id ↔ id ∈ program.tools.keys) ∧
      (∀ tool ∈ source.tools, (tool.id, tool) ∈ program.tools) ∧
      (source.tools.map Tool.id).Nodup := by
  unfold ofProgram at made
  split at made
  next => simp at made
  next entry found =>
    obtain rfl := Except.ok.inj made
    have member : (program.entry, entry) ∈ program.tools := Entries.mem_of_get? found
    have named : entry.id = program.entry := closed.ids member
    have rest := @ids_filterMap_tool? program closed (program.ids.filter (· != entry.id))
      fun id member => Program.mem_sortIds.mp (List.mem_filter.mp member).1
    have ids : (entry :: (program.ids.filter (· != entry.id)).filterMap program.tool?).map Tool.id =
        entry.id :: program.ids.filter (· != entry.id) := by
      rw [List.map_cons, rest]
    refine ⟨rfl, rfl, named, ?_, ?_, ?_⟩
    · intro id
      change id ∈ (entry :: _).map Tool.id ↔ _
      rw [ids]
      simp only [List.mem_cons, List.mem_filter, bne_iff_ne, Program.ids, Program.mem_sortIds]
      constructor
      · rintro (rfl | ⟨known, -⟩)
        · exact named ▸ Entries.mem_keys_of_get? found
        · exact known
      · intro known
        by_cases same : id = entry.id
        · exact .inl same
        · exact .inr ⟨known, same⟩
    · intro tool present
      rcases List.mem_cons.mp present with rfl | later
      · exact named ▸ member
      · obtain ⟨id, -, found⟩ := List.mem_filterMap.mp later
        have member : (id, tool) ∈ program.tools := Entries.mem_of_get? found
        exact (closed.ids member) ▸ member
    · change ((entry :: _).map Tool.id).Nodup
      rw [ids]
      exact List.nodup_cons.mpr ⟨by simp, (Program.nodup_sortIds distinct).filter _⟩

/-- What is true of every source that is read. -/
structure WellFormed (source : Source) : Prop where
  distinct : (source.tools.map Tool.id).Nodup
  enclosed : Tool.Enclosed source.tools
  lined : source.linked = false → Tool.Lined (String.ofList source.location) source.tools

theorem location_eq_of_id {one two : Source} (wellFormed : one.WellFormed)
    (wellFormed' : two.WellFormed) (live : one.linked = false) (live' : two.linked = false)
    {tool other : Tool} (member : tool ∈ one.tools) (member' : other ∈ two.tools)
    (same : tool.id = other.id) : one.location = two.location := by
  obtain ⟨line, named⟩ := (wellFormed.lined live).ids tool member
  obtain ⟨line', named'⟩ := (wellFormed'.lined live').ids other member'
  rw [named, named'] at same
  exact String.ofList_injective (Block.idAt_inj same).1

theorem wellFormed_of_lined {location : List Char} {tools : List Tool} {source : Source}
    (lined : Tool.Lined (String.ofList location) tools)
    (made : ofTools location false tools = .ok source) :
    source.location = location ∧ source.WellFormed := by
  obtain ⟨rfl, rfl, -⟩ := ofTools_eq_ok made
  exact ⟨rfl, lined.distinct, Tool.Lined.enclosed lined, fun _ => lined⟩

theorem readText_eq_ok {fetched : Fetched} {workingDir model text : String} {source : Source}
    (read : readText fetched workingDir model text = .ok source) :
    ∃ tools, ofTools fetched.location false tools = .ok source ∧
      ((∃ number root version, Document.openApiVersion fetched.content = .ok (some number) ∧
          Document.decode text (String.ofList fetched.location) none = .ok root ∧
          OpenApi.tools (.map root) version (String.ofList fetched.location) workingDir model =
            .ok tools) ∨
        Block.parse text (String.ofList fetched.location) workingDir model 1 = .ok tools) := by
  unfold readText at read
  obtain ⟨number, kind, read⟩ := bind_eq_ok.mp read
  cases number with
  | some number =>
    obtain ⟨root, decoded, read⟩ := bind_eq_ok.mp read
    obtain ⟨tools, adapted, read⟩ := bind_eq_ok.mp read
    exact ⟨tools, read, .inl ⟨number, root, _, kind, decoded, adapted⟩⟩
  | none =>
    obtain ⟨tools, parsed, read⟩ := bind_eq_ok.mp read
    exact ⟨tools, read, .inr parsed⟩

theorem read_eq_ok {base : List Char} {model : String} {fetched : Fetched} {source : Source}
    (given : read base model fetched = .ok source) :
    Document.isArtifact fetched.content = .ok true ∧
        (∃ program, Artifact.disassembleBytes fetched.content = .ok program ∧
          ofProgram fetched.location program = .ok source) ∨
      Document.isArtifact fetched.content = .ok false ∧
        ∃ workingDir chars, Text.decode? fetched.content = some chars ∧
          readText fetched workingDir model (String.ofList chars) = .ok source := by
  unfold read at given
  obtain ⟨artifact, kind, given⟩ := bind_eq_ok.mp given
  cases artifact with
  | true =>
    obtain ⟨program, found, given⟩ := bind_eq_ok.mp given
    exact .inl ⟨kind, program, found, given⟩
  | false =>
    simp only [Bool.false_eq_true, if_false] at given
    split at given
    next => exact absurd given throw_ne_ok
    next chars text =>
      obtain ⟨workingDir, -, given⟩ := bind_eq_ok.mp given
      exact .inr ⟨kind, _, chars, text, given⟩

/-- Content of native tools is a text that is neither an artifact nor the description of an
interface. -/
structure IsNative (content : Bytes) (text : List Char) : Prop where
  text : Text.decode? content = some text
  noArtifact : Document.isArtifact content = .ok false
  noVersion : Document.openApiVersion content = .ok none

theorem read_of_isNative {base : List Char} {model : String} {fetched : Fetched} {text : List Char}
    (native : IsNative fetched.content text) {workingDir : List Char}
    (directory : Location.workingDir fetched.location base = .ok workingDir) :
    read base model fetched =
      Block.parse (String.ofList text) (String.ofList fetched.location) (String.ofList workingDir)
        model 1 >>= ofTools fetched.location false := by
  simp only [read, readText, native.noArtifact, native.text, native.noVersion, directory,
    OpenApi.malformedUrl, Except.mapError, bind, Except.bind, Bool.false_eq_true, if_false]

theorem linked_of_readText {fetched : Fetched} {workingDir model text : String} {source : Source}
    (read : readText fetched workingDir model text = .ok source) : source.linked = false := by
  obtain ⟨tools, made, -⟩ := readText_eq_ok read
  exact (ofTools_eq_ok made).2.2

theorem linked_of_read {base : List Char} {model : String} {fetched : Fetched} {source : Source}
    (text : Document.isArtifact fetched.content = .ok false)
    (given : read base model fetched = .ok source) : source.linked = false := by
  rcases read_eq_ok given with ⟨kind, -⟩ | ⟨-, _, _, -, given⟩
  · simp [text] at kind
  · exact linked_of_readText given

theorem wellFormed_of_readText {fetched : Fetched} {workingDir model text : String}
    {source : Source} (read : readText fetched workingDir model text = .ok source) :
    source.location = fetched.location ∧ source.WellFormed := by
  obtain ⟨tools, made, ⟨_, _, _, -, -, adapted⟩ | parsed⟩ := readText_eq_ok read
  · exact wellFormed_of_lined (OpenApi.lined_of_tools adapted) made
  · exact wellFormed_of_lined (Block.lined_of_parse parsed) made

theorem exists_ofValue {content : Bytes} {program : Program}
    (read : Artifact.disassembleBytes content = .ok program) :
    ∃ chars json, Text.decodeDetected? content = some chars ∧
      Json.parse (String.ofList chars) = .ok json ∧ Artifact.ofValue (.ofJson json) = .ok program := by
  unfold Artifact.disassembleBytes Artifact.disassemble at read
  split at read
  next chars text =>
    split at read
    next => simp at read
    next => simp at read
    next json parsed =>
      split at read
      next => exact ⟨chars, json, text, parsed, read⟩
      next => simp at read
  next => simp at read

theorem closed_of_disassembleBytes {content : Bytes} {program : Program}
    (read : Artifact.disassembleBytes content = .ok program) :
    program.Closed ∧ program.tools.keys.Nodup := by
  obtain ⟨_, _, -, -, read⟩ := exists_ofValue read
  exact Artifact.closed_of_ofValue read

theorem mem_tools_ofProgram {location : List Char} {program : Program} {source : Source}
    (closed : program.Closed) (distinct : program.tools.keys.Nodup)
    (made : ofProgram location program = .ok source) {tool : Tool} :
    tool ∈ source.tools ↔ (tool.id, tool) ∈ program.tools := by
  obtain ⟨-, -, -, ids, tools, -⟩ := ofProgram_spec closed distinct made
  refine ⟨tools tool, fun member => ?_⟩
  obtain ⟨other, own, same⟩ := List.mem_map.mp (ids.mpr (List.mem_map_of_mem member))
  have found := Entries.get?_of_mem distinct (tools other own)
  rw [same, Entries.get?_of_mem distinct member] at found
  exact Option.some.inj found ▸ own

theorem wellFormed_of_ofProgram {location : List Char} {program : Program} {source : Source}
    (closed : program.Closed) (distinct : program.tools.keys.Nodup)
    (made : ofProgram location program = .ok source) :
    source.location = location ∧ source.WellFormed := by
  obtain ⟨place, linked, -, ids, tools, apart⟩ := ofProgram_spec closed distinct made
  refine ⟨place, apart, ?_, fun live => by simp [linked] at live⟩
  intro tool member target present
  exact ids.mpr (closed.targets (tools tool member) present)

theorem artifact_of_read {base : List Char} {model : String} {fetched : Fetched} {source : Source}
    (given : read base model fetched = .ok source) (linked : source.linked = true) :
    ∃ program, Artifact.disassembleBytes fetched.content = .ok program ∧
      source.first.id = program.entry ∧
      ∀ {tool}, tool ∈ source.tools ↔ (tool.id, tool) ∈ program.tools := by
  rcases read_eq_ok given with ⟨-, program, found, given⟩ | ⟨-, _, _, -, given⟩
  · obtain ⟨closed, distinct⟩ := closed_of_disassembleBytes found
    exact ⟨program, found, (ofProgram_spec closed distinct given).2.2.1,
      mem_tools_ofProgram closed distinct given⟩
  · simp [linked_of_readText given] at linked

theorem wellFormed_of_read {base : List Char} {model : String} {fetched : Fetched} {source : Source}
    (given : read base model fetched = .ok source) :
    source.location = fetched.location ∧ source.WellFormed := by
  rcases read_eq_ok given with ⟨-, program, found, given⟩ | ⟨-, _, _, -, given⟩
  · obtain ⟨closed, distinct⟩ := closed_of_disassembleBytes found
    exact wellFormed_of_ofProgram closed distinct given
  · exact wellFormed_of_readText given

end Source
end ToolGraph
