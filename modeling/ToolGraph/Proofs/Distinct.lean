import ToolGraph.Builtin
import ToolGraph.Proofs.Artifact.RoundTrip
import ToolGraph.Proofs.Source

/-!
Tables have each key once, in every tool that is read.
-/
namespace ToolGraph
open Entries

namespace Schema

theorem field_eq_valid {α : Type} {entries : List (Value × Value)} {names : List String}
    {check : Value → Checked α} {fallback : Option α} {value : α}
    (valid : field entries names check fallback = .valid value) :
    (∃ given, check given = .valid value) ∨ fallback = some value := by
  unfold field at valid
  split at valid
  next given _ => exact .inl ⟨given, Checked.within_eq_valid.mp valid⟩
  next =>
    split at valid
    next => exact .inr (congrArg some (Checked.valid.inj valid))
    next => simp [Checked.within, Checked.issue] at valid

theorem nodup_of_table {α : Type} {check : Value → Checked α} {given : Value}
    {checked : Entries String α} (valid : table check given = .valid checked) :
    (keys checked).Nodup := by
  unfold table at valid
  split at valid
  next =>
    obtain ⟨pairs, -, rfl⟩ := Checked.map_eq_valid.mp valid
    exact nodup_ofPairs pairs
  next => simp [Checked.issue] at valid

theorem nodup_of_field {α : Type} {entries : List (Value × Value)} {names : List String}
    {check : Value → Checked α} {checked : Entries String α}
    (valid : field entries names (table check) (some []) = .valid checked) :
    (keys checked).Nodup := by
  rcases field_eq_valid valid with ⟨given, passed⟩ | missing
  · exact nodup_of_table passed
  · exact Option.some.inj missing ▸ List.nodup_nil

end Schema

namespace Tool
open Schema

theorem distinct_of_check {entries : List (Value × Value)} {tool : Tool}
    (passed : check (.map entries) = .valid tool) : tool.Distinct := by
  obtain ⟨-, -, -, -, -, -, -, -, arguments, -, -, -, mapping, locals, -, -⟩ := check_eq_valid.mp passed
  refine ⟨nodup_of_field mapping, nodup_of_field locals, ?_⟩
  intro table given
  rcases field_eq_valid arguments with ⟨data, passed⟩ | missing
  · rw [Option.mem_def.mp given] at passed
    exact nodup_of_table (check_of_optional passed)
  · rw [← Option.some.inj missing] at given
    simp at given

end Tool

namespace Block

theorem nodup_argumentsSchema (arguments : Entries String String) :
    (keys (argumentsSchema arguments)).Nodup :=
  show ["properties", "type"].Nodup by decide

theorem distinct_of_parse {content location workingDir model : String} {firstLine : Int}
    {tools : List Tool} (parsed : parse content location workingDir model firstLine = .ok tools) :
    ∀ tool ∈ tools, tool.Distinct := by
  obtain ⟨first, blocks, localTools, -, -, -, distinct, rfl⟩ := parse_eq_ok parsed
  intro other member
  obtain ⟨block, -, rfl⟩ := List.mem_map.mp member
  refine ⟨List.nodup_nil, distinct, ?_⟩
  intro arguments given
  simp only [tool] at given
  split at given
  next => simp at given
  next =>
    obtain rfl := Option.mem_some_iff.mp given
    exact nodup_argumentsSchema _

end Block

namespace Builtin

theorem distinct_of_find? {name : String} {tool : Tool} (found : find? name = some tool) :
    tool.Distinct := by
  obtain ⟨builtin, -, rfl⟩ := Option.map_eq_some_iff.mp found
  refine ⟨List.nodup_nil, List.nodup_nil, ?_⟩
  intro arguments given
  obtain rfl := Option.mem_some_iff.mp given
  exact Block.nodup_argumentsSchema _

end Builtin

namespace OpenApi

theorem nodup_schema? {fields : ArgumentFields} {arguments : Entries String Value}
    (given : arguments ∈ fields.schema?) : (keys arguments).Nodup := by
  unfold ArgumentFields.schema? at given
  split at given
  next => simp at given
  next =>
    obtain rfl := Option.mem_some_iff.mp given
    split
    next => exact show ["properties", "type"].Nodup by decide
    next => exact show ["properties", "type", "required"].Nodup by decide

theorem distinct_operationTools {context : Context} (distinct : context.localTools.keys.Nodup)
    {address : List Char} {line : Nat} {operations : List (String × Operation)} :
    ∀ tool ∈ operationTools context address line operations, tool.Distinct := by
  induction operations generalizing line with
  | nil => simp [operationTools]
  | cons operation rest ih =>
    intro tool member
    rcases List.mem_cons.mp member with rfl | later
    · exact ⟨List.nodup_nil, distinct, fun arguments given => nodup_schema? given⟩
    · exact ih tool later

theorem distinct_of_tools {document : Value} {version : Version} {location workingDir model : String}
    {found : List Tool} (adapted : tools document version location workingDir model = .ok found) :
    ∀ tool ∈ found, tool.Distinct := by
  obtain ⟨context, address, title, description, names, operations, -, -, -, -, distinct, rfl⟩ :=
    tools_eq_ok adapted
  intro tool member
  rcases List.mem_cons.mp member with rfl | later
  · exact ⟨nodup_ofPairs _, distinct, by simp [rootTool, Context.tool, Tool.named]⟩
  · exact distinct_operationTools distinct tool later

end OpenApi

namespace Artifact

theorem distinct_of_readTool {ids : List Value} {entry : Value} {tool : Tool}
    (read : readTool ids entry = .ok tool) : tool.Distinct := by
  unfold readTool at read
  obtain ⟨mapping, -, read⟩ := bind_eq_ok.mp read
  obtain ⟨locals, -, read⟩ := bind_eq_ok.mp read
  simp only at read
  split at read
  next passed => exact pure_eq_ok.mp read ▸ Tool.distinct_of_check passed
  next => exact absurd read throw_ne_ok

theorem distinct_of_ofValue {data : Value} {program : Program} (read : ofValue data = .ok program) :
    program.Distinct := by
  obtain ⟨_, entries, ids, tools, entry, -, -, -, made, -, -, same⟩ := ofValue_eq_ok read
  refine ⟨(closed_of_ofValue read).2, ?_⟩
  intro id tool member
  obtain ⟨entry, -, read⟩ := exists_left_of_forall₂ made (mem_byId (same ▸ member)).1
  exact distinct_of_readTool read

end Artifact

namespace Source

theorem distinct_ofProgram {location : List Char} {program : Program} {source : Source}
    (closed : program.Closed) (distinct : program.Distinct)
    (made : ofProgram location program = .ok source) : ∀ tool ∈ source.tools, tool.Distinct := by
  intro tool member
  apply distinct.tables
  exact (mem_tools_ofProgram closed distinct.ids made).mp member

theorem distinct_of_read {base : List Char} {model : String} {fetched : Fetched} {source : Source}
    (given : read base model fetched = .ok source) : ∀ tool ∈ source.tools, tool.Distinct := by
  rcases read_eq_ok given with ⟨-, program, found, given⟩ | ⟨-, _, _, -, given⟩
  · obtain ⟨_, _, -, -, found⟩ := exists_ofValue found
    exact distinct_ofProgram (Artifact.closed_of_ofValue found).1 (Artifact.distinct_of_ofValue found)
      given
  · obtain ⟨tools, made, ⟨_, _, _, -, -, adapted⟩ | parsed⟩ := readText_eq_ok given
    · exact (ofTools_eq_ok made).1 ▸ OpenApi.distinct_of_tools adapted
    · exact (ofTools_eq_ok made).1 ▸ Block.distinct_of_parse parsed

end Source
end ToolGraph
