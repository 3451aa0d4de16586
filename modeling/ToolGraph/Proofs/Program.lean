import Mathlib.Data.List.Sort
import Mathlib.Data.String.Basic
import ToolGraph.Program.Artifact
import ToolGraph.Proofs.Entries

/-!
Programs in which every id is that of one of the tools, and the order of the ids. Programs that differ
in the order of their tools alone have the same texts.
-/
namespace ToolGraph

def Tool.targets (tool : Tool) : List String :=
  tool.toolMapping.values ++ tool.localTools.values

theorem Tool.mem_targets {tool : Tool} {target : String} :
    target ∈ tool.targets ↔
      (∃ name, (name, target) ∈ tool.toolMapping) ∨ ∃ name, (name, target) ∈ tool.localTools := by
  simp [targets, Entries.values]

namespace Program

structure Closed (program : Program) : Prop where
  entry : program.entry ∈ program.tools.keys
  ids : ∀ {id tool}, (id, tool) ∈ program.tools → tool.id = id
  targets : ∀ {id tool target}, (id, tool) ∈ program.tools → target ∈ tool.targets →
    target ∈ program.tools.keys

theorem insertId_eq (id : String) (ids : List String) :
    insertId id ids = ids.orderedInsert (· ≤ ·) id := by
  induction ids with
  | nil => rfl
  | cons other ids ih => rw [insertId, ih, List.orderedInsert_cons]

theorem sortIds_eq (ids : List String) : sortIds ids = ids.insertionSort (· ≤ ·) := by
  induction ids with
  | nil => rfl
  | cons id ids ih =>
    show insertId id (sortIds ids) = _
    rw [ih, insertId_eq, List.insertionSort_cons]

theorem sortIds_perm (ids : List String) : (sortIds ids).Perm ids :=
  sortIds_eq ids ▸ List.perm_insertionSort _ ids

theorem mem_sortIds {ids : List String} {id : String} : id ∈ sortIds ids ↔ id ∈ ids :=
  (sortIds_perm ids).mem_iff

theorem nodup_sortIds {ids : List String} (distinct : ids.Nodup) : (sortIds ids).Nodup :=
  (sortIds_perm ids).nodup_iff.mpr distinct

theorem pairwise_sortIds {ids : List String} (distinct : ids.Nodup) :
    (sortIds ids).Pairwise (· < ·) := by
  have sorted : (sortIds ids).Pairwise (· ≤ ·) := sortIds_eq ids ▸ List.pairwise_insertionSort _ ids
  exact (sorted.and (nodup_sortIds distinct)).imp fun ⟨atMost, apart⟩ => lt_of_le_of_ne atMost apart

theorem sortIds_eq_of_perm {left right : List String} (same : left.Perm right) :
    sortIds left = sortIds right := by
  have perm : (sortIds left).Perm (sortIds right) :=
    ((sortIds_perm left).trans same).trans (sortIds_perm right).symm
  rw [sortIds_eq, sortIds_eq] at *
  exact perm.eq_of_sortedLE List.sortedLE_insertionSort List.sortedLE_insertionSort

structure Alike (left right : Program) : Prop where
  name : left.name = right.name
  entry : left.entry = right.entry
  tool : ∀ id, left.tool? id = right.tool? id
  distinct : left.tools.keys.Nodup
  distinct' : right.tools.keys.Nodup

namespace Alike
variable {left right : Program}

theorem keys_perm (alike : Alike left right) : left.tools.keys.Perm right.tools.keys := by
  rw [List.perm_ext_iff_of_nodup alike.distinct alike.distinct']
  intro id
  have same : left.tools.get? id = right.tools.get? id := alike.tool id
  simp only [Entries.mem_keys_iff, same]

theorem toJson? (alike : Alike left right) : left.toJson? = right.toJson? := by
  have ids : left.ids = right.ids := sortIds_eq_of_perm alike.keys_perm
  have tools : left.tool? = right.tool? := funext alike.tool
  simp only [Program.toJson?, alike.name, alike.entry, ids, tools]

theorem fault? (alike : Alike left right) : left.fault? = right.fault? := by
  have ids : left.ids = right.ids := sortIds_eq_of_perm alike.keys_perm
  have tools : left.tool? = right.tool? := funext alike.tool
  simp only [Program.fault?, ids, tools]

theorem text (alike : Alike left right) (layout : Json.Layout) :
    left.text layout = right.text layout := by
  simp only [Program.text, alike.toJson?, alike.fault?]

theorem assemble (alike : Alike left right) : Artifact.assemble left = Artifact.assemble right := by
  have order : Artifact.order left = Artifact.order right := by
    simp only [Artifact.order, alike.entry]
    rw [sortIds_eq_of_perm (alike.keys_perm.filter _)]
  have tools : Artifact.toolJson left = Artifact.toolJson right := by
    funext ids id
    simp only [Artifact.toolJson, alike.tool id]
  simp only [Artifact.assemble, Artifact.toJson, order, tools, alike.name]

end Alike
end Program
end ToolGraph
