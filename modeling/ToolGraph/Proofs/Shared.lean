import ToolGraph.Proofs.Source

/-!
What the tools of one source have in common. Those of a source that is no artifact all say where it
was found, and have one table of names.
-/
namespace ToolGraph

/-- The tools come from one place and know each other by the same names. -/
structure Tool.Shared (location : String) (tools : List Tool) : Prop where
  placed : ∀ tool ∈ tools, tool.origin.location = location
  named : ∀ tool ∈ tools, ∀ other ∈ tools, tool.localTools = other.localTools

namespace Block

theorem shared_of_parse {content location workingDir model : String} {firstLine : Int}
    {tools : List Tool} (parsed : parse content location workingDir model firstLine = .ok tools) :
    Tool.Shared location tools := by
  obtain ⟨first, blocks, localTools, -, -, -, -, rfl⟩ := parse_eq_ok parsed
  have made : ∀ other ∈ (first :: blocks).map (tool location workingDir model localTools),
      other.origin.location = location ∧ other.localTools = localTools := by
    intro other member
    obtain ⟨block, -, rfl⟩ := List.mem_map.mp member
    exact ⟨rfl, rfl⟩
  refine ⟨fun one member => (made one member).1, fun one member other member' => ?_⟩
  rw [(made one member).2, (made other member').2]

end Block

namespace OpenApi

theorem placed_operationTools {context : Context} {address : List Char} {line : Nat}
    {operations : List (String × Operation)} {tool : Tool}
    (member : tool ∈ operationTools context address line operations) :
    tool.origin.location = context.location := by
  induction operations generalizing line with
  | nil => simp [operationTools] at member
  | cons operation rest ih =>
    rcases List.mem_cons.mp member with rfl | later
    · rfl
    · exact ih later

theorem shared_of_tools {document : Value} {version : Version} {location workingDir model : String}
    {found : List Tool} (adapted : tools document version location workingDir model = .ok found) :
    Tool.Shared location found := by
  obtain ⟨context, address, title, description, names, operations, rfl, -, -, -, -, rfl⟩ :=
    tools_eq_ok adapted
  have made : ∀ tool ∈ rootTool context title description names ::
      operationTools context address 2 (names.zip operations),
      tool.origin.location = context.location ∧ tool.localTools = context.localTools := by
    intro tool member
    rcases List.mem_cons.mp member with rfl | later
    · exact ⟨rfl, rfl⟩
    · exact ⟨placed_operationTools later, (mem_operationTools later).2.2⟩
  refine ⟨fun tool member => (made tool member).1, fun tool member other member' => ?_⟩
  rw [(made tool member).2, (made other member').2]

end OpenApi

namespace Source

theorem shared_of_readText {fetched : Fetched} {workingDir model text : String} {source : Source}
    (read : readText fetched workingDir model text = .ok source) :
    Tool.Shared (String.ofList fetched.location) source.tools := by
  obtain ⟨tools, made, ⟨_, _, _, -, -, adapted⟩ | parsed⟩ := readText_eq_ok read
  · exact (ofTools_eq_ok made).1 ▸ OpenApi.shared_of_tools adapted
  · exact (ofTools_eq_ok made).1 ▸ Block.shared_of_parse parsed

theorem shared_of_read {base : List Char} {model : String} {fetched : Fetched} {source : Source}
    (given : read base model fetched = .ok source) (live : source.linked = false) :
    Tool.Shared (String.ofList source.location) source.tools := by
  rw [(wellFormed_of_read given).1]
  rcases read_eq_ok given with ⟨-, program, found, given⟩ | ⟨-, _, _, -, given⟩
  · obtain ⟨closed, distinct⟩ := closed_of_disassembleBytes found
    simp [(ofProgram_spec closed distinct given).2.1] at live
  · exact shared_of_readText given

end Source
end ToolGraph
