import Mathlib.Algebra.Order.BigOperators.Group.List
import Mathlib.Algebra.Order.Ring.Nat
import Mathlib.Data.Finset.Card
import ToolGraph.Proofs.Hereditary

/-!
The expansion of references without a bound. A call on a list or an object makes one call for each of its
parts, a call on a reference one for the data that its pointer leads to, however large that is. The calls
come to an end all the same: a pointer is expanded only where it is not being expanded already, and all
pointers that are met stand in the document. So the bound that inlining is given never cuts it short.
-/
namespace ToolGraph.OpenApi

/-! ### Calls -/

mutual

/-- A call that expands data of the document `root` while the pointers in `active` are being expanded: the
number of pointers that are expanded inside each other on its deepest branch, the number of all calls that it
takes, itself among them, and its result. -/
inductive Expands (root : Value) : (active : List String) → (value : Value) → (depth calls : Nat) →
    (result : Except ConversionFault Value) → Prop where
  | leaf {active : List String} {value : Value} (noList : ∀ items, value ≠ .list items)
      (noMap : ∀ entries, value ≠ .map entries) : Expands root active value 0 1 (.ok value)
  | list {active : List String} {items : List Value} {depth calls : Nat}
      {results : Except ConversionFault (List Value)}
      (each : ExpandsEach root active items depth calls results) :
      Expands root active (.list items) depth (calls + 1) (results.map .list)
  | map {active : List String} {entries : List (Value × Value)} {depth calls : Nat}
      {results : Except ConversionFault (List Value)} (plain : reference? entries = none)
      (each : ExpandsEach root active (entries.map Prod.snd) depth calls results) :
      Expands root active (.map entries) depth (calls + 1)
        (results.map fun values => .map ((entries.map Prod.fst).zip values))
  /-- A pointer that is being expanded stays, with all that stands beside it. -/
  | kept {active : List String} {entries : List (Value × Value)} {pointer : String}
      (refers : reference? entries = some pointer) (inside : pointer ∈ active) :
      Expands root active (.map entries) 0 1 (.ok (.map entries))
  | lost {active : List String} {entries : List (Value × Value)} {pointer : String}
      {fault : ConversionFault} (refers : reference? entries = some pointer)
      (outside : pointer ∉ active) (leads : Pointer.follow root pointer = .error fault) :
      Expands root active (.map entries) 0 1 (.error fault)
  | followed {active : List String} {entries : List (Value × Value)} {pointer : String}
      {target : Value} {depth calls : Nat} {result : Except ConversionFault Value}
      (refers : reference? entries = some pointer) (outside : pointer ∉ active)
      (leads : Pointer.follow root pointer = .ok target)
      (inner : Expands root (pointer :: active) target depth calls result) :
      Expands root active (.map entries) (depth + 1) (calls + 1) result

/-- The calls for the parts of a list or an object, one after the other up to the first that fails. -/
inductive ExpandsEach (root : Value) : (active : List String) → (items : List Value) →
    (depth calls : Nat) → (results : Except ConversionFault (List Value)) → Prop where
  | nil {active : List String} : ExpandsEach root active [] 0 0 (.ok [])
  | stopped {active : List String} {item : Value} {items : List Value} {depth calls : Nat}
      {fault : ConversionFault} (first : Expands root active item depth calls (.error fault)) :
      ExpandsEach root active (item :: items) depth calls (.error fault)
  | cons {active : List String} {item result : Value} {items : List Value}
      {depth others calls rest : Nat} {results : Except ConversionFault (List Value)}
      (first : Expands root active item depth calls (.ok result))
      (later : ExpandsEach root active items others rest results) :
      ExpandsEach root active (item :: items) (max depth others) (calls + rest)
        (results.map (result :: ·))

end

mutual

theorem Expands.unique {root : Value} {active : List String} {value : Value}
    {depth depth' calls calls' : Nat} {result result' : Except ConversionFault Value}
    (run : Expands root active value depth calls result)
    (run' : Expands root active value depth' calls' result') :
    depth = depth' ∧ calls = calls' ∧ result = result' := by
  match run with
  | .leaf noList noMap =>
    cases run' with
    | leaf => exact ⟨rfl, rfl, rfl⟩
    | list => exact absurd rfl (noList _)
    | _ => exact absurd rfl (noMap _)
  | .list each =>
    cases run' with
    | leaf noList => exact absurd rfl (noList _)
    | list each' =>
      obtain ⟨rfl, rfl, rfl⟩ := each.unique each'
      exact ⟨rfl, rfl, rfl⟩
  | .map plain each =>
    cases run' with
    | leaf _ noMap => exact absurd rfl (noMap _)
    | map _ each' =>
      obtain ⟨rfl, rfl, rfl⟩ := each.unique each'
      exact ⟨rfl, rfl, rfl⟩
    | _ => simp_all
  | .kept refers inside =>
    cases run' with
    | leaf _ noMap => exact absurd rfl (noMap _)
    | kept => exact ⟨rfl, rfl, rfl⟩
    | _ => simp_all
  | .lost refers outside leads =>
    cases run' with
    | leaf _ noMap => exact absurd rfl (noMap _)
    | _ => simp_all
  | .followed refers outside leads inner =>
    cases run' with
    | leaf _ noMap => exact absurd rfl (noMap _)
    | followed refers' _ leads' inner' =>
      obtain rfl := Option.some.inj (refers.symm.trans refers')
      obtain rfl := Except.ok.inj (leads.symm.trans leads')
      obtain ⟨rfl, rfl, rfl⟩ := inner.unique inner'
      exact ⟨rfl, rfl, rfl⟩
    | _ => simp_all
termination_by structural run

theorem ExpandsEach.unique {root : Value} {active : List String} {items : List Value}
    {depth depth' calls calls' : Nat} {results results' : Except ConversionFault (List Value)}
    (run : ExpandsEach root active items depth calls results)
    (run' : ExpandsEach root active items depth' calls' results') :
    depth = depth' ∧ calls = calls' ∧ results = results' := by
  match run with
  | .nil =>
    cases run'
    exact ⟨rfl, rfl, rfl⟩
  | .stopped first =>
    cases run' with
    | stopped first' =>
      obtain ⟨rfl, rfl, same⟩ := first.unique first'
      cases same
      exact ⟨rfl, rfl, rfl⟩
    | cons first' => cases (first.unique first').2.2
  | .cons first later =>
    cases run' with
    | stopped first' => cases (first.unique first').2.2
    | cons first' later' =>
      obtain ⟨rfl, rfl, same⟩ := first.unique first'
      obtain rfl := Except.ok.inj same
      obtain ⟨rfl, rfl, rfl⟩ := later.unique later'
      exact ⟨rfl, rfl, rfl⟩
termination_by structural run

end

/-! ### Parts of a document -/

theorem mem_itemPointers {items : List Value} {pointer : String} :
    pointer ∈ itemPointers items ↔ ∃ item ∈ items, pointer ∈ pointers item := by
  induction items with
  | nil => simp [itemPointers]
  | cons item items ih => simp [itemPointers, ih]

theorem mem_entryPointers {entries : List (Value × Value)} {pointer : String} :
    pointer ∈ entryPointers entries ↔ ∃ entry ∈ entries, pointer ∈ pointers entry.2 := by
  induction entries with
  | nil => simp [entryPointers]
  | cons entry entries ih => simp [entryPointers, ih]

theorem mem_pointers_of_reference? {entries : List (Value × Value)} {pointer : String}
    (refers : reference? entries = some pointer) : pointer ∈ pointers (.map entries) := by
  simp [pointers, refers]

theorem itemPointers_eq_nil {items : List Value} :
    itemPointers items = [] ↔ ∀ item ∈ items, pointers item = [] := by
  induction items with
  | nil => simp [itemPointers]
  | cons item items ih => simp [itemPointers, ih]

theorem entryPointers_eq_nil {entries : List (Value × Value)} :
    entryPointers entries = [] ↔ ∀ entry ∈ entries, pointers entry.2 = [] := by
  induction entries with
  | nil => simp [entryPointers]
  | cons entry entries ih => simp [entryPointers, ih]

theorem reference?_eq_some {entries : List (Value × Value)} {pointer : String} :
    reference? entries = some pointer ↔ Value.entry? entries (.text "$ref") = some (.text pointer) := by
  unfold reference?
  split
  next known => simp [known]
  next other => simpa using other pointer

theorem reference?_eq_none {entries : List (Value × Value)} :
    reference? entries = none ↔
      ∀ value, Value.entry? entries (.text "$ref") = some value → value.isText = false := by
  unfold reference?
  split
  next pointer known => simp [known, Value.isText]
  next other =>
    simp only [true_iff]
    intro value known
    cases value with
    | text pointer => exact absurd known (other pointer)
    | _ => rfl

theorem pointers_map {entries : List (Value × Value)} :
    pointers (.map entries) = [] ↔
      (∀ value, Value.entry? entries (.text "$ref") = some value → value.isText = false) ∧
        ∀ entry ∈ entries, pointers entry.2 = [] := by
  rw [pointers, List.append_eq_nil_iff, Option.toList_eq_nil_iff, reference?_eq_none,
    entryPointers_eq_nil]

theorem pointers_subset {part whole : Value} (inside : part.IsPart whole) :
    pointers part ⊆ pointers whole := by
  induction inside with
  | all => exact List.Subset.refl _
  | item member _ ih =>
    intro pointer own
    exact mem_itemPointers.mpr ⟨_, member, ih own⟩
  | entry member _ ih =>
    intro pointer own
    exact List.mem_append_right _ (mem_entryPointers.mpr ⟨_, member, ih own⟩)

mutual

/-- The number of the parts that expansion goes through: lists and objects with all that is in them. -/
def nodes : Value → Nat
  | .list items => itemNodes items + 1
  | .map entries => entryNodes entries + 1
  | _ => 1

def itemNodes : List Value → Nat
  | [] => 0
  | item :: items => nodes item + itemNodes items

def entryNodes : List (Value × Value) → Nat
  | [] => 0
  | (_, value) :: entries => nodes value + entryNodes entries

end

theorem itemNodes_eq (items : List Value) : itemNodes items = (items.map nodes).sum := by
  induction items with
  | nil => rfl
  | cons item items ih => simp [itemNodes, ih]

theorem entryNodes_eq (entries : List (Value × Value)) :
    entryNodes entries = ((entries.map Prod.snd).map nodes).sum := by
  induction entries with
  | nil => rfl
  | cons entry entries ih => simp [entryNodes, ih]

theorem nodes_le {part whole : Value} (inside : part.IsPart whole) : nodes part ≤ nodes whole := by
  induction inside with
  | all => exact Nat.le_refl _
  | item member _ ih =>
    rw [nodes, itemNodes_eq]
    exact ih.trans ((List.le_sum_of_mem (List.mem_map_of_mem member)).trans (Nat.le_succ _))
  | entry member _ ih =>
    rw [nodes, entryNodes_eq]
    have known := List.mem_map_of_mem (f := nodes) (List.mem_map_of_mem (f := Prod.snd) member)
    exact ih.trans ((List.le_sum_of_mem known).trans (Nat.le_succ _))

/-! ### Replacing references -/

section substitution
variable (target : String → Except ConversionFault (Option Value))

theorem substituteItems_eq (items : List Value) :
    substituteItems target items = items.mapM (substitute target) := by
  induction items with
  | nil => rfl
  | cons item items ih =>
    rw [substituteItems, List.mapM_cons, ih]
    cases substitute target item with
    | error => rfl
    | ok => cases items.mapM (substitute target) <;> rfl

theorem substituteEntries_eq (entries : List (Value × Value)) :
    substituteEntries target entries = ((entries.map Prod.snd).mapM (substitute target)).map
      ((entries.map Prod.fst).zip ·) := by
  induction entries with
  | nil => rfl
  | cons entry entries ih =>
    rw [substituteEntries, List.map_cons, List.map_cons, List.mapM_cons, ih]
    cases substitute target entry.2 with
    | error => rfl
    | ok => cases (entries.map Prod.snd).mapM (substitute target) <;> rfl

end substitution

theorem mapM_ok {items : List Value} {f : Value → Except ConversionFault Value}
    (same : ∀ item ∈ items, f item = .ok item) : items.mapM f = .ok items :=
  mapM_eq_ok.mpr (List.forall₂_same.mpr same)

theorem substitute_none (value : Value) : substitute (fun _ => .ok none) value = .ok value := by
  induction value using Value.induct with
  | list items ih => rw [substitute, substituteItems_eq, mapM_ok ih]; rfl
  | map entries ih =>
    rw [substitute]
    split
    · rfl
    · rw [substituteEntries_eq, mapM_ok (List.forall_mem_map.mpr ih), Except.map, Except.map,
        ← List.zip_of_prod rfl rfl]
  | leaf value noList noMap => cases value <;> simp_all [substitute]

/-- What `target` gives for a pointer is what a call makes of the reference, with fewer than `depth` pointers
expanded inside each other and fewer than `calls` calls. -/
inductive Serves (root : Value) (active : List String)
    (target : String → Except ConversionFault (Option Value)) (depth calls : Nat) (pointer : String) :
    Prop where
  | kept (inside : pointer ∈ active) (gives : target pointer = .ok none)
  | lost {fault : ConversionFault} (outside : pointer ∉ active)
      (leads : Pointer.follow root pointer = .error fault) (gives : target pointer = .error fault)
  | followed {data : Value} {inner own : Nat} {result : Except ConversionFault Value}
      (outside : pointer ∉ active) (leads : Pointer.follow root pointer = .ok data)
      (run : Expands root (pointer :: active) data inner own result) (below : inner < depth)
      (fewer : own < calls) (gives : target pointer = result.map some)

section runs
variable {root : Value} {active : List String} {depth calls : Nat}

theorem exists_expandsEach {items : List Value} {f : Value → Except ConversionFault Value}
    (each : ∀ item ∈ items, ∃ inner own, Expands root active item inner own (f item) ∧
      inner ≤ depth ∧ own ≤ nodes item * calls) :
    ∃ inner own, ExpandsEach root active items inner own (items.mapM f) ∧ inner ≤ depth ∧
      own ≤ (items.map nodes).sum * calls := by
  induction items with
  | nil => exact ⟨0, 0, .nil, Nat.zero_le _, Nat.zero_le _⟩
  | cons item items ih =>
    obtain ⟨⟨inner, own, run, below, fewer⟩, others⟩ := List.forall_mem_cons.mp each
    rw [List.mapM_cons, List.map_cons, List.sum_cons, Nat.add_mul]
    cases known : f item with
    | error =>
      rw [known] at run
      exact ⟨inner, own, .stopped run, below, by omega⟩
    | ok result =>
      rw [known] at run
      obtain ⟨deepest, rest, runs, below', fewer'⟩ := ih others
      refine ⟨max inner deepest, own + rest, ?_, by omega, by omega⟩
      have all := ExpandsEach.cons run runs
      cases results : items.mapM f <;>
        · rw [results] at all
          exact all

theorem exists_expands {target : String → Except ConversionFault (Option Value)} (some : 0 < calls)
    {value : Value}
    (serves : ∀ pointer ∈ pointers value, Serves root active target depth calls pointer) :
    ∃ inner own, Expands root active value inner own (substitute target value) ∧ inner ≤ depth ∧
      own ≤ nodes value * calls := by
  induction value using Value.induct with
  | list items ih =>
    obtain ⟨inner, own, runs, below, fewer⟩ := exists_expandsEach fun item member =>
      ih item member fun pointer own => serves pointer (mem_itemPointers.mpr ⟨item, member, own⟩)
    rw [substitute, substituteItems_eq, nodes, itemNodes_eq, Nat.succ_mul]
    exact ⟨inner, own + 1, .list runs, below, by omega⟩
  | map entries ih =>
    rw [substitute, nodes, entryNodes_eq, Nat.succ_mul]
    cases refers : reference? entries with
    | none =>
      have each : ∀ value ∈ entries.map Prod.snd, ∃ inner own, Expands root active value inner own
          (substitute target value) ∧ inner ≤ depth ∧ own ≤ nodes value * calls :=
        List.forall_mem_map.mpr fun entry member => ih entry member fun pointer own =>
          serves pointer (List.mem_append_right _ (mem_entryPointers.mpr ⟨entry, member, own⟩))
      obtain ⟨inner, own, runs, below, fewer⟩ := exists_expandsEach each
      refine ⟨inner, own + 1, ?_, below, by omega⟩
      have run := Expands.map refers runs
      rw [substituteEntries_eq]
      cases known : (entries.map Prod.snd).mapM (substitute target) <;>
        · rw [known] at run
          exact run
    | some pointer =>
      cases serves pointer (mem_pointers_of_reference? refers) with
      | kept inside gives =>
        simp only [gives]
        exact ⟨0, 1, .kept refers inside, Nat.zero_le _, by omega⟩
      | lost outside leads gives =>
        simp only [gives]
        exact ⟨0, 1, .lost refers outside leads, Nat.zero_le _, by omega⟩
      | @followed data inner own result outside leads run below fewer gives =>
        simp only [gives]
        refine ⟨inner + 1, own + 1, ?_, below, by omega⟩
        cases result <;> exact .followed refers outside leads run
  | leaf value noList noMap =>
    refine ⟨0, 1, ?_, Nat.zero_le _, ?_⟩
    · have same : substitute target value = .ok value := by cases value <;> simp_all [substitute]
      exact same ▸ .leaf noList noMap
    · have one : nodes value = 1 := by cases value <;> simp_all [nodes]
      rwa [one, Nat.one_mul]

end runs

/-! ### Documents -/

def remaining (root : Value) (active : List String) : Finset String :=
  (pointers root).toFinset \ active.toFinset

theorem mem_active_of_remaining {root : Value} {active : List String} (none : (remaining root active).card = 0)
    {pointer : String} (member : pointer ∈ pointers root) : pointer ∈ active := by
  have empty := Finset.card_eq_zero.mp none
  by_contra outside
  have left : pointer ∈ remaining root active := by simp [remaining, member, outside]
  simp [empty] at left

theorem card_remaining {root : Value} {active : List String} {pointer : String}
    (member : pointer ∈ pointers root) (outside : pointer ∉ active) :
    (remaining root active).card = (remaining root (pointer :: active)).card + 1 := by
  have erased : remaining root (pointer :: active) = (remaining root active).erase pointer := by
    ext other
    simp only [remaining, List.toFinset_cons, Finset.mem_sdiff, List.mem_toFinset, Finset.mem_insert,
      Finset.mem_erase]
    tauto
  have left : pointer ∈ remaining root active := by simp [remaining, member, outside]
  rw [erased, Finset.card_erase_add_one left]

theorem exists_expands_expand {root : Value} {fresh : Nat} {active : List String} {value : Value}
    (inside : value.IsPart root) (enough : (remaining root active).card ≤ fresh) :
    ∃ depth calls, Expands root active value depth calls (expand root fresh active value) ∧
      depth ≤ (remaining root active).card ∧
      calls ≤ nodes value * (nodes root + 1) ^ (remaining root active).card := by
  induction fresh generalizing active value with
  | zero =>
    have none : (remaining root active).card = 0 := Nat.le_zero.mp enough
    have serves : ∀ pointer ∈ pointers value, Serves root active (fun _ => .ok .none) 0 1 pointer :=
      fun pointer own => .kept (mem_active_of_remaining none (pointers_subset inside own)) rfl
    obtain ⟨depth, calls, run, below, fewer⟩ := exists_expands Nat.one_pos serves
    rw [substitute_none] at run
    rw [none, Nat.pow_zero]
    exact ⟨depth, calls, run, below, fewer⟩
  | succ fresh ih =>
    refine exists_expands (Nat.pow_pos (Nat.succ_pos _)) fun pointer own => ?_
    by_cases active' : pointer ∈ active
    · exact .kept active' (by simp [active'])
    have left := card_remaining (pointers_subset inside own) active'
    cases leads : Pointer.follow root pointer with
    | error fault => exact .lost active' leads (by simp [active', leads])
    | ok data =>
      have part := Value.isPart_of_follow leads
      have enough' : (remaining root (pointer :: active)).card ≤ fresh := by omega
      obtain ⟨depth, calls, run, below, fewer⟩ := ih part enough'
      refine .followed active' leads run (by omega) (fewer.trans_lt ?_) (by simp [active', leads])
      rw [left, Nat.pow_succ, Nat.mul_comm]
      exact Nat.mul_lt_mul_of_pos_left (Nat.lt_succ_of_le (nodes_le part)) (Nat.pow_pos (Nat.succ_pos _))

theorem inline_whole {document : Value} (whole : pointers document = []) :
    inline document = .ok document := by
  rw [inline, whole]
  rfl

theorem exists_expands_inline (document : Value) :
    ∃ depth calls, Expands document [] document depth calls (inline document) ∧
      depth ≤ (pointers document).dedup.length ∧
      calls ≤ nodes document * (nodes document + 1) ^ (pointers document).dedup.length := by
  have distinct : (remaining document []).card = (pointers document).dedup.length := by
    simp [remaining, List.card_toFinset]
  have enough : (remaining document []).card ≤ (pointers document).length :=
    distinct ▸ (List.dedup_sublist _).length_le
  rw [← distinct]
  exact exists_expands_expand .all enough

/-- Inlining makes finitely many calls, whatever the references of the document lead to: it is the only way in
which the unbounded expansion can go, and no branch of it expands more pointers inside each other than the
document has. -/
theorem inlining_ends (document : Value) :
    ∃ depth calls, Expands document [] document depth calls (inline document) ∧
      (∀ {depth' calls' result}, Expands document [] document depth' calls' result →
        depth' = depth ∧ calls' = calls ∧ result = inline document) ∧
      depth ≤ (pointers document).dedup.length ∧
      calls ≤ nodes document * (nodes document + 1) ^ (pointers document).dedup.length := by
  obtain ⟨depth, calls, run, below, fewer⟩ := exists_expands_inline document
  exact ⟨depth, calls, run, fun other => other.unique run, below, fewer⟩

end ToolGraph.OpenApi
