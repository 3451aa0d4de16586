import ToolGraph.Program.Artifact
import ToolGraph.Proofs.Lists
import ToolGraph.Proofs.Program
import ToolGraph.Proofs.Schema
import ToolGraph.Proofs.Value

/-!
Programs that are read from artifacts. The positions in an artifact are those of its tools, so what
is read is closed, whatever else the data holds.
-/
namespace ToolGraph.Artifact
open Schema

theorem member_eq_ok {value found : Value} {key : String}
    (given : member value key = .ok found) :
    ∃ entries, value = .map entries ∧ Value.entry? entries (.text key) = some found := by
  unfold member at given
  split at given
  next entries =>
    split at given
    next present => exact ⟨entries, rfl, by rw [present, Except.ok.inj given]⟩
    next => simp [malformed] at given
  all_goals simp [malformed] at given

theorem mem_of_idAt {ids : List Value} {position id : Value}
    (found : idAt ids position = .ok id) : id ∈ ids := by
  simp only [idAt] at found
  split at found
  case h_3 => simp [malformed] at found
  all_goals
    split at found
    next item => exact Except.ok.inj found ▸ mem_of_itemAt? item
    next => simp [malformed] at found

theorem idTable_eq_ok {ids : List Value} {table found : Value}
    (given : idTable ids table = .ok found) :
    ∃ entries, found = .map entries ∧ ∀ entry ∈ entries, entry.2 ∈ ids := by
  unfold idTable at given
  split at given
  next =>
    split at given
    next entries some =>
      obtain ⟨results, mapped, same⟩ := bind_eq_ok.mp given
      refine ⟨results, (pure_eq_ok.mp same).symm, ?_⟩
      intro entry member
      obtain ⟨origin, -, step⟩ := exists_left_of_forall₂ (mapM_eq_ok.mp mapped) member
      obtain ⟨id, found, same⟩ := bind_eq_ok.mp step
      exact pure_eq_ok.mp same ▸ mem_of_idAt found
    next => simp at given
  next => exact ⟨[], (Except.ok.inj given).symm, by simp⟩

theorem readTool_eq_ok {ids : List Value} {entry id : Value} {tool : Tool}
    (known : member entry "id" = .ok id) (read : readTool ids entry = .ok tool) :
    text id = .valid tool.id ∧
      (∃ mapping, idTable ids (entry.get "toolMapping") = .ok mapping ∧
        table text mapping = .valid tool.toolMapping) ∧
      ∃ locals, idTable ids (entry.get "localTools") = .ok locals ∧
        table text locals = .valid tool.localTools := by
  obtain ⟨entries, rfl, present⟩ := member_eq_ok known
  unfold readTool at read
  obtain ⟨mapping, first, read⟩ := bind_eq_ok.mp read
  obtain ⟨locals, second, read⟩ := bind_eq_ok.mp read
  simp only at read
  split at read
  next passed =>
    obtain rfl := pure_eq_ok.mp read
    obtain ⟨-, -, -, -, -, -, -, -, -, -, -, own, mapped, named, -, -⟩ := Tool.check_eq_valid.mp passed
    rw [field_of_entry (by simp [Value.entry?_putEntry]; exact present),
      Checked.within_eq_valid] at own
    rw [field_of_entry (by simp [Value.entry?_putEntry]; rfl), Checked.within_eq_valid] at mapped
    rw [field_of_entry (by simp [Value.entry?_putEntry]; rfl), Checked.within_eq_valid] at named
    exact ⟨own, ⟨mapping, first, mapped⟩, locals, second, named⟩
  next => exact absurd read throw_ne_ok

theorem targets_of_readTool {ids : List Value} {entry id : Value} {tool : Tool}
    (known : member entry "id" = .ok id) (read : readTool ids entry = .ok tool) :
    ∀ target ∈ tool.targets, ∃ id ∈ ids, text id = .valid target := by
  obtain ⟨-, ⟨mapping, first, mapped⟩, locals, second, named⟩ := readTool_eq_ok known read
  obtain ⟨mappingEntries, rfl, mappingIds⟩ := idTable_eq_ok first
  obtain ⟨localEntries, rfl, localIds⟩ := idTable_eq_ok second
  intro target member
  rcases Tool.mem_targets.mp member with ⟨name, member⟩ | ⟨name, member⟩
  · obtain ⟨entry, known, checked⟩ := mem_of_table_eq_valid mapped member
    exact ⟨entry.2, mappingIds entry known, checked⟩
  · obtain ⟨entry, known, checked⟩ := mem_of_table_eq_valid named member
    exact ⟨entry.2, localIds entry known, checked⟩

def byId (tools : List Tool) : Entries String Tool :=
  Entries.ofPairs (tools.map (fun tool => (tool.id, tool)))

theorem mem_keys_byId {tools : List Tool} {id : String} :
    id ∈ (byId tools).keys ↔ ∃ tool ∈ tools, tool.id = id := by
  rw [byId, Entries.mem_keys_ofPairs]
  simp [Entries.keys]

theorem mem_byId {tools : List Tool} {id : String} {tool : Tool} (member : (id, tool) ∈ byId tools) :
    tool ∈ tools ∧ tool.id = id := by
  have found := Entries.get?_of_mem (Entries.nodup_ofPairs _) member
  obtain ⟨own, made, same⟩ := List.mem_map.mp (Entries.mem_of_get?_ofPairs found)
  obtain ⟨rfl, rfl⟩ := Prod.mk.inj same
  exact ⟨made, rfl⟩

theorem ofValue_eq_ok {data : Value} {program : Program} (read : ofValue data = .ok program) :
    ∃ listed entries ids tools entry, member data "tools" = .ok listed ∧ parts listed = .ok entries ∧
      List.Forall₂ (fun entry id => member entry "id" = .ok id) entries ids ∧
      List.Forall₂ (fun entry tool => readTool ids entry = .ok tool) entries tools ∧
      (∃ position, member data "entry" = .ok position ∧ idAt ids position = .ok entry) ∧
      text entry = .valid program.entry ∧ program.tools = byId tools := by
  unfold ofValue at read
  obtain ⟨all, given, read⟩ := bind_eq_ok.mp read
  obtain ⟨entries, cut, read⟩ := bind_eq_ok.mp read
  obtain ⟨ids, listed, read⟩ := bind_eq_ok.mp read
  obtain ⟨tools, made, read⟩ := bind_eq_ok.mp read
  obtain ⟨name, -, read⟩ := bind_eq_ok.mp read
  obtain ⟨position, placed, read⟩ := bind_eq_ok.mp read
  obtain ⟨entryId, entered, read⟩ := bind_eq_ok.mp read
  split at read
  next name entry named entryNamed =>
    obtain rfl := pure_eq_ok.mp read
    rw [field_of_entry rfl, Checked.within_eq_valid] at entryNamed
    exact ⟨all, entries, ids, tools, entryId, given, cut, mapM_eq_ok.mp listed, mapM_eq_ok.mp made,
      ⟨position, placed, entered⟩, entryNamed, rfl⟩
  all_goals exact absurd read throw_ne_ok

theorem closed_of_ofValue {data : Value} {program : Program}
    (read : ofValue data = .ok program) : program.Closed ∧ program.tools.keys.Nodup := by
  obtain ⟨_, entries, ids, tools, entry, -, -, listed, made, ⟨_, -, entered⟩, named, same⟩ :=
    ofValue_eq_ok read
  have known : ∀ {id : Value} {target : String}, id ∈ ids → text id = .valid target →
      target ∈ (byId tools).keys := by
    intro id target member valid
    obtain ⟨entry, present, written⟩ := exists_left_of_forall₂ listed member
    obtain ⟨tool, member, read⟩ := exists_right_of_forall₂ made present
    have own := (readTool_eq_ok written read).1
    exact mem_keys_byId.mpr ⟨tool, member, Checked.valid.inj (own.symm.trans valid)⟩
  refine ⟨⟨?_, ?_, ?_⟩, ?_⟩
  · exact same ▸ known (mem_of_idAt entered) named
  · intro id tool member
    exact (mem_byId (same ▸ member)).2
  · intro id tool target member present
    obtain ⟨entry, origin, read⟩ := exists_left_of_forall₂ made (mem_byId (same ▸ member)).1
    obtain ⟨own, -, written⟩ := exists_right_of_forall₂ listed origin
    obtain ⟨id, member, valid⟩ := targets_of_readTool written read target present
    exact same ▸ known member valid
  · exact same ▸ Entries.nodup_ofPairs _

end ToolGraph.Artifact
