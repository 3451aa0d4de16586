import ToolGraph.Proofs.Hereditary
import ToolGraph.Value.Display

/-!
Data that has a text. What lies inside such data has a text too, and so has what becomes of it when
references are inlined.
-/
namespace ToolGraph

namespace Value

@[simp] theorem isShowable_list {items : List Value} :
    (list items).isShowable = true ↔ ∀ item ∈ items, item.isShowable = true := by
  rw [isShowable]
  induction items with
  | nil => simp [itemsShowable]
  | cons item items ih => simp [itemsShowable, ih]

@[simp] theorem isShowable_map {entries : List (Value × Value)} :
    (map entries).isShowable = true ↔
      ∀ entry ∈ entries, entry.1.isShowable = true ∧ entry.2.isShowable = true := by
  rw [isShowable]
  induction entries with
  | nil => simp [entriesShowable]
  | cons entry entries ih => simp [entriesShowable, ih]

@[simp] theorem isShowable_text (value : String) : (text value).isShowable = true := rfl

theorem hereditary_isShowable : Hereditary (fun value => value.isShowable = true) where
  null := rfl
  blank := rfl
  texts := isShowable_text
  list := isShowable_list
  values whole entry member := (isShowable_map.mp whole entry member).2
  replace := by
    intro entries results whole keys values
    refine isShowable_map.mpr fun entry member => ⟨?_, values entry member⟩
    obtain ⟨origin, known, same⟩ := List.mem_map.mp (keys ▸ List.mem_map_of_mem (f := Prod.fst) member)
    exact same ▸ (isShowable_map.mp whole origin known).1

theorem isShowable_of_member? {value found : Value} {key : String}
    (showable : value.isShowable = true) (known : value.member? key = some found) :
    found.isShowable = true := hereditary_isShowable.member? showable known

theorem isShowable_getD {value fallback : Value} {key : String} (showable : value.isShowable = true)
    (other : fallback.isShowable = true) :
    ((value.member? key).getD fallback).isShowable = true := hereditary_isShowable.getD showable other

theorem isShowable_get {value : Value} (showable : value.isShowable = true) (key : String) :
    (value.get key).isShowable = true := hereditary_isShowable.get showable key

end Value

theorem OpenApi.isShowable_inline {document spec : Value} (showable : document.isShowable = true)
    (inlined : inline document = .ok spec) : spec.isShowable = true :=
  holds_inline Value.hereditary_isShowable showable inlined

end ToolGraph
