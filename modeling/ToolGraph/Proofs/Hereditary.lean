import ToolGraph.OpenApi.Inline
import ToolGraph.Proofs.Lists

/-!
Properties that data hands on to its parts. A pointer leads to data with the property, and inlining keeps
it, since a reference is replaced by data that lies in the document.
-/
namespace ToolGraph

namespace Value

@[elab_as_elim]
theorem induct {motive : Value → Prop}
    (list : ∀ items, (∀ item ∈ items, motive item) → motive (.list items))
    (map : ∀ entries, (∀ entry ∈ entries, motive entry.2) → motive (.map entries))
    (leaf : ∀ value, (∀ items, value ≠ .list items) → (∀ entries, value ≠ .map entries) →
      motive value) (value : Value) : motive value := by
  cases value with
  | list items => exact list items fun item _ => induct list map leaf item
  | map entries => exact map entries fun entry _ => induct list map leaf entry.2
  | _ => exact leaf _ (by simp) (by simp)
termination_by sizeOf value
decreasing_by
  · have := List.sizeOf_lt_of_mem ‹_ ∈ items›
    simp only [Value.list.sizeOf_spec]
    omega
  · have := List.sizeOf_lt_of_mem ‹_ ∈ entries›
    have : sizeOf entry.2 < sizeOf entry := by cases entry; simp only [Prod.mk.sizeOf_spec]; omega
    simp only [Value.map.sizeOf_spec]
    omega

/-- Data lies in other data: it is all of it, or lies in one of the items or values. -/
inductive IsPart (part : Value) : (whole : Value) → Prop where
  | all : IsPart part part
  | item {items : List Value} {item : Value} (member : item ∈ items) (inside : IsPart part item) :
      IsPart part (.list items)
  | entry {entries : List (Value × Value)} {entry : Value × Value} (member : entry ∈ entries)
      (inside : IsPart part entry.2) : IsPart part (.map entries)

theorem IsPart.trans {part middle whole : Value} (inner : IsPart part middle)
    (outer : IsPart middle whole) : IsPart part whole := by
  induction outer with
  | all => exact inner
  | item member _ ih => exact .item member ih
  | entry member _ ih => exact .entry member ih

theorem isPart_of_entry {entries : List (Value × Value)} {key value : Value}
    (found : entry? entries key = some value) : value.IsPart (.map entries) := by
  obtain ⟨entry, known, rfl⟩ := Option.map_eq_some_iff.mp found
  exact .entry (List.mem_of_find?_eq_some known) .all

theorem isPart_of_step {pointer segment : String} {value found : Value}
    (leads : Pointer.step pointer value segment = .ok found) : found.IsPart value := by
  cases value with
  | map entries =>
    simp only [Pointer.step] at leads
    split at leads
    next known => exact Except.ok.inj leads ▸ isPart_of_entry known
    next => simp at leads
  | list items =>
    simp only [Pointer.step] at leads
    split at leads
    next => simp at leads
    next =>
      split at leads
      next known => exact Except.ok.inj leads ▸ .item (mem_of_itemAt? known) .all
      next => simp at leads
  | _ => simp [Pointer.step] at leads

theorem isPart_of_follow {root found : Value} {pointer : String}
    (leads : Pointer.follow root pointer = .ok found) : found.IsPart root := by
  unfold Pointer.follow at leads
  split at leads
  next => simp at leads
  next segments split =>
    clear split
    induction segments generalizing root with
    | nil => exact pure_eq_ok.mp leads ▸ .all
    | cons segment segments ih =>
      obtain ⟨next, stepped, rest⟩ := bind_eq_ok.mp leads
      exact (ih rest).trans (isPart_of_step stepped)

end Value

/-- The parts of data with the property have it, and data keeps it when its values are replaced by others
that have it. What is missing has it too. -/
structure Value.Hereditary (holds : Value → Prop) : Prop where
  null : holds .null
  blank : holds (.map [])
  texts : ∀ value, holds (.text value)
  list : ∀ {items}, holds (.list items) ↔ ∀ item ∈ items, holds item
  values : ∀ {entries}, holds (.map entries) → ∀ entry ∈ entries, holds entry.2
  replace : ∀ {entries results}, holds (.map entries) → results.map Prod.fst = entries.map Prod.fst →
    (∀ entry ∈ results, holds entry.2) → holds (.map results)

namespace Value.Hereditary
variable {holds : Value → Prop} (hereditary : Hereditary holds)
include hereditary

/-! ### Parts -/

theorem part {part whole : Value} (inside : part.IsPart whole) (known : holds whole) : holds part := by
  induction inside with
  | all => exact known
  | item member _ ih => exact ih (hereditary.list.mp known _ member)
  | entry member _ ih => exact ih (hereditary.values known _ member)

theorem entry? {entries : List (Value × Value)} {key value : Value} (whole : holds (.map entries))
    (found : Value.entry? entries key = some value) : holds value :=
  hereditary.part (isPart_of_entry found) whole

theorem member? {value found : Value} {key : String} (whole : holds value)
    (known : value.member? key = some found) : holds found := by
  cases value with
  | map entries => exact hereditary.entry? whole known
  | _ => simp [Value.member?] at known

theorem getD {value fallback : Value} {key : String} (whole : holds value) (other : holds fallback) :
    holds ((value.member? key).getD fallback) := by
  cases known : value.member? key with
  | none => exact other
  | some found => exact hereditary.member? whole known

theorem get {value : Value} (whole : holds value) (key : String) : holds (value.get key) :=
  hereditary.getD whole hereditary.null

end Value.Hereditary

/-! ### Inlining -/

namespace OpenApi
section substitution
variable {holds : Value → Prop} {target : String → Except ConversionFault (Option Value)}

mutual

theorem holds_substitute (hereditary : Value.Hereditary holds)
    (known : ∀ pointer found, target pointer = .ok (some found) → holds found) (value : Value)
    {result : Value} (whole : holds value) (made : substitute target value = .ok result) :
    holds result := by
  cases value with
  | list items =>
    rw [substitute] at made
    obtain ⟨results, parts, rfl⟩ := map_eq_ok.mp made
    exact hereditary.list.mpr
      (holds_substituteItems hereditary known items (hereditary.list.mp whole) parts)
  | map entries =>
    rw [substitute] at made
    split at made
    next pointer _ =>
      obtain ⟨found, leads, rfl⟩ := map_eq_ok.mp made
      cases found with
      | none => exact whole
      | some found => exact known _ _ leads
    next =>
      obtain ⟨results, parts, rfl⟩ := map_eq_ok.mp made
      obtain ⟨keys, values⟩ :=
        holds_substituteEntries hereditary known entries (hereditary.values whole) parts
      exact hereditary.replace whole keys values
  | _ =>
    rw [substitute] at made
    · exact Except.ok.inj made ▸ whole
    all_goals simp
termination_by structural value

theorem holds_substituteItems (hereditary : Value.Hereditary holds)
    (known : ∀ pointer found, target pointer = .ok (some found) → holds found) (items : List Value)
    {results : List Value} (whole : ∀ item ∈ items, holds item)
    (made : substituteItems target items = .ok results) : ∀ item ∈ results, holds item := by
  match items with
  | [] =>
    obtain rfl := Except.ok.inj made
    simp
  | item :: items =>
    simp only [substituteItems] at made
    split at made
    next => simp at made
    next own first =>
      obtain ⟨others, rest, rfl⟩ := map_eq_ok.mp made
      obtain ⟨head, tail⟩ := List.forall_mem_cons.mp whole
      exact List.forall_mem_cons.mpr ⟨holds_substitute hereditary known item head first,
        holds_substituteItems hereditary known items tail rest⟩
termination_by structural items

theorem holds_substituteEntries (hereditary : Value.Hereditary holds)
    (known : ∀ pointer found, target pointer = .ok (some found) → holds found)
    (entries : List (Value × Value)) {results : List (Value × Value)}
    (whole : ∀ entry ∈ entries, holds entry.2)
    (made : substituteEntries target entries = .ok results) :
    results.map Prod.fst = entries.map Prod.fst ∧ ∀ entry ∈ results, holds entry.2 := by
  match entries with
  | [] =>
    obtain rfl := Except.ok.inj made
    simp
  | (key, value) :: entries =>
    simp only [substituteEntries] at made
    split at made
    next => simp at made
    next own first =>
      obtain ⟨others, rest, rfl⟩ := map_eq_ok.mp made
      obtain ⟨head, tail⟩ := List.forall_mem_cons.mp whole
      obtain ⟨keys, values⟩ := holds_substituteEntries hereditary known entries tail rest
      exact ⟨congrArg (key :: ·) keys,
        List.forall_mem_cons.mpr ⟨holds_substitute hereditary known value head first, values⟩⟩
termination_by structural entries

end

end substitution

theorem holds_expand {holds : Value → Prop} (hereditary : Value.Hereditary holds) {root : Value}
    (document : holds root) {fresh : Nat} {active : List String} {value result : Value}
    (whole : holds value) (made : expand root fresh active value = .ok result) : holds result := by
  induction fresh generalizing active value result with
  | zero => exact Except.ok.inj made ▸ whole
  | succ fresh ih =>
    refine holds_substitute hereditary ?_ _ whole made
    intro pointer found leads
    split at leads
    next => simp at leads
    next =>
      split at leads
      next => simp at leads
      next target followed =>
        obtain ⟨own, expanded, same⟩ := map_eq_ok.mp leads
        exact Option.some.inj same ▸ ih (hereditary.part (Value.isPart_of_follow followed) document) expanded

theorem holds_inline {holds : Value → Prop} (hereditary : Value.Hereditary holds)
    {document spec : Value} (whole : holds document) (inlined : inline document = .ok spec) :
    holds spec := holds_expand hereditary whole whole inlined

end OpenApi
end ToolGraph
