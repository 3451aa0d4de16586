import Mathlib.Data.List.Forall2
import Mathlib.Data.List.Pairwise
import ToolGraph.Position

/-! Steps that may fail, and lists whose items are made of the items of another one by one. -/
namespace ToolGraph
variable {α β ε : Type}

theorem bind_eq_ok {first : Except ε α} {next : α → Except ε β} {result : β} :
    first >>= next = .ok result ↔ ∃ value, first = .ok value ∧ next value = .ok result := by
  cases first with
  | error error => simp [bind, Except.bind]
  | ok value => simp [bind, Except.bind]

theorem bind_eq_error {first : Except ε α} {next : α → Except ε β} {error : ε} :
    first >>= next = .error error ↔
      first = .error error ∨ ∃ value, first = .ok value ∧ next value = .error error := by
  cases first with
  | error => simp [bind, Except.bind]
  | ok value => simp [bind, Except.bind]

theorem map_eq_ok {first : Except ε α} {f : α → β} {result : β} :
    first.map f = .ok result ↔ ∃ value, first = .ok value ∧ f value = result := by
  cases first <;> simp [Except.map]

theorem map_eq_error {first : Except ε α} {f : α → β} {error : ε} :
    first.map f = .error error ↔ first = .error error := by
  cases first <;> simp [Except.map]

theorem mapError_eq_ok {δ : Type} {first : Except ε α} {f : ε → δ} {result : α} :
    first.mapError f = .ok result ↔ first = .ok result := by
  cases first <;> simp [Except.mapError]

theorem mapError_eq_error {δ : Type} {first : Except ε α} {f : ε → δ} {error : δ} :
    first.mapError f = .error error ↔ ∃ cause, first = .error cause ∧ error = f cause := by
  cases first <;> simp [Except.mapError, eq_comm]

theorem pure_eq_ok {value result : α} :
    (pure value : Except ε α) = .ok result ↔ value = result := by
  simp [pure, Except.pure]

theorem throw_ne_ok {error : ε} {result : α} : (throw error : Except ε α) ≠ .ok result := by
  simp [throw, throwThe, MonadExceptOf.throw]

theorem toOption_map (first : Except ε α) (f : α → β) :
    (first.map f).toOption = first.toOption.map f := by
  cases first <;> rfl

theorem toOption_bind (first : Except ε α) (next : α → Except ε β) :
    (first >>= next).toOption = first.toOption.bind (fun value => (next value).toOption) := by
  cases first <;> rfl

theorem toOption_eq_some {first : Except ε α} {result : α} :
    first.toOption = some result ↔ first = .ok result := by
  cases first <;> simp [Except.toOption]

theorem exists_left_of_forall₂ {R : α → β → Prop} {lefts : List α} {rights : List β}
    (pairs : List.Forall₂ R lefts rights) {right : β} (member : right ∈ rights) :
    ∃ left ∈ lefts, R left right := by
  induction pairs with
  | nil => simp at member
  | cons one _ ih =>
    rcases List.mem_cons.mp member with rfl | later
    · exact ⟨_, List.mem_cons_self, one⟩
    · obtain ⟨left, known, related⟩ := ih later
      exact ⟨left, List.mem_cons_of_mem _ known, related⟩

theorem exists_right_of_forall₂ {R : α → β → Prop} {lefts : List α} {rights : List β}
    (pairs : List.Forall₂ R lefts rights) {left : α} (member : left ∈ lefts) :
    ∃ right ∈ rights, R left right :=
  exists_left_of_forall₂ (R := flip R) pairs.flip member

theorem exists_left_at_of_forall₂ {R : α → β → Prop} {lefts : List α} {rights : List β}
    (pairs : List.Forall₂ R lefts rights) {place : Nat} {right : β} (known : rights[place]? = some right) :
    ∃ left, lefts[place]? = some left ∧ R left right := by
  induction pairs generalizing place with
  | nil => simp at known
  | cons one _ ih =>
    cases place with
    | zero => exact ⟨_, rfl, Option.some.inj known ▸ one⟩
    | succ place => exact ih known

theorem exists_right_at_of_forall₂ {R : α → β → Prop} {lefts : List α} {rights : List β}
    (pairs : List.Forall₂ R lefts rights) {place : Nat} {left : α} (known : lefts[place]? = some left) :
    ∃ right, rights[place]? = some right ∧ R left right :=
  exists_left_at_of_forall₂ (R := flip R) pairs.flip known

theorem exists_forall₂ {R : α → β → Prop} {lefts : List α} (each : ∀ left ∈ lefts, ∃ right, R left right) :
    ∃ rights, List.Forall₂ R lefts rights := by
  induction lefts with
  | nil => exact ⟨[], .nil⟩
  | cons left lefts ih =>
    obtain ⟨right, related⟩ := each left List.mem_cons_self
    obtain ⟨rights, pairs⟩ := ih fun other member => each other (List.mem_cons_of_mem _ member)
    exact ⟨right :: rights, .cons related pairs⟩

theorem forall₂_of_mem {R S : α → β → Prop} {lefts : List α} {rights : List β}
    (pairs : List.Forall₂ R lefts rights)
    (step : ∀ left ∈ lefts, ∀ right ∈ rights, R left right → S left right) :
    List.Forall₂ S lefts rights := by
  induction pairs with
  | nil => exact .nil
  | cons one _ ih =>
    refine .cons (step _ List.mem_cons_self _ List.mem_cons_self one) (ih fun left known right member => ?_)
    exact step left (List.mem_cons_of_mem _ known) right (List.mem_cons_of_mem _ member)

theorem forall₂_comp {γ : Type} {R : α → β → Prop} {S : β → γ → Prop} {lefts : List α}
    {middles : List β} {rights : List γ} (first : List.Forall₂ R lefts middles)
    (second : List.Forall₂ S middles rights) :
    List.Forall₂ (fun left right => ∃ middle, R left middle ∧ S middle right) lefts rights := by
  induction first generalizing rights with
  | nil =>
    cases second
    exact .nil
  | cons one _ ih =>
    cases second with
    | cons other others => exact .cons ⟨_, one, other⟩ (ih others)

theorem mapM_congr {f g : α → Except ε β} {items : List α}
    (same : ∀ item ∈ items, f item = g item) : items.mapM f = items.mapM g := by
  induction items with
  | nil => rfl
  | cons item items ih =>
    obtain ⟨first, others⟩ := List.forall_mem_cons.mp same
    rw [List.mapM_cons, List.mapM_cons, first, ih others]

theorem mapM_eq_ok {f : α → Except ε β} {items : List α} {results : List β} :
    items.mapM f = .ok results ↔ List.Forall₂ (fun item result => f item = .ok result) items results := by
  induction items generalizing results with
  | nil => cases results <;> simp [pure, Except.pure]
  | cons item items ih =>
    rw [List.mapM_cons]
    cases first : f item with
    | error error => cases results <;> simp [bind, Except.bind, first]
    | ok result =>
      cases rest : items.mapM f with
      | error error =>
        cases results with
        | nil => simp [bind, Except.bind]
        | cons head tail =>
          have none := (not_congr (@ih tail)).mp (by simp [rest])
          simp [bind, Except.bind, none]
      | ok others =>
        cases results with
        | nil => simp [bind, Except.bind, pure, Except.pure]
        | cons head tail =>
          have same := @ih tail
          rw [rest] at same
          simpa [bind, Except.bind, pure, Except.pure, first] using fun _ => same

theorem mapM_eq_error {f : α → Except ε β} {items : List α} {error : ε} :
    items.mapM f = .error error ↔ ∃ before item after, items = before ++ item :: after ∧
      (∀ other ∈ before, ∃ result, f other = .ok result) ∧ f item = .error error := by
  induction items with
  | nil => simp [pure, Except.pure]
  | cons head rest ih =>
    rw [List.mapM_cons]
    constructor
    · intro failed
      rcases bind_eq_error.mp failed with first | ⟨result, done, failed⟩
      · exact ⟨[], head, rest, rfl, by simp, first⟩
      · rcases bind_eq_error.mp failed with later | ⟨_, -, none⟩
        · obtain ⟨before, item, after, rfl, fine, failed⟩ := ih.mp later
          exact ⟨head :: before, item, after, rfl, List.forall_mem_cons.mpr ⟨⟨result, done⟩, fine⟩,
            failed⟩
        · cases none
    · rintro ⟨before, item, after, split, fine, failed⟩
      cases before with
      | nil =>
        obtain ⟨rfl, rfl⟩ := List.cons.inj split
        exact bind_eq_error.mpr (.inl failed)
      | cons first before =>
        obtain ⟨rfl, rfl⟩ := List.cons.inj split
        obtain ⟨⟨result, done⟩, fine⟩ := List.forall_mem_cons.mp fine
        refine bind_eq_error.mpr (.inr ⟨result, done, bind_eq_error.mpr (.inl ?_)⟩)
        exact ih.mpr ⟨before, item, after, rfl, fine, failed⟩

theorem foldlM_eq_error {f : β → α → Except ε β} {items : List α} {start : β} {error : ε} :
    items.foldlM f start = .error error ↔ ∃ front item back middle, items = front ++ item :: back ∧
      front.foldlM f start = .ok middle ∧ f middle item = .error error := by
  induction items generalizing start with
  | nil => simp [pure, Except.pure]
  | cons head rest ih =>
    rw [List.foldlM_cons]
    constructor
    · intro failed
      rcases bind_eq_error.mp failed with first | ⟨next, done, failed⟩
      · exact ⟨[], head, rest, start, rfl, rfl, first⟩
      · obtain ⟨front, item, back, middle, rfl, fine, failed⟩ := ih.mp failed
        refine ⟨head :: front, item, back, middle, rfl, ?_, failed⟩
        rw [List.foldlM_cons]
        exact bind_eq_ok.mpr ⟨next, done, fine⟩
    · rintro ⟨front, item, back, middle, split, fine, failed⟩
      cases front with
      | nil =>
        obtain ⟨rfl, rfl⟩ := List.cons.inj split
        obtain rfl := pure_eq_ok.mp fine
        exact bind_eq_error.mpr (.inl failed)
      | cons first front =>
        obtain ⟨rfl, rfl⟩ := List.cons.inj split
        rw [List.foldlM_cons] at fine
        obtain ⟨next, done, fine⟩ := bind_eq_ok.mp fine
        exact bind_eq_error.mpr (.inr ⟨next, done, ih.mpr ⟨front, item, back, middle, rfl, fine, failed⟩⟩)

theorem mapM_eq_some {f : α → Option β} {items : List α} {results : List β} :
    items.mapM f = some results ↔
      List.Forall₂ (fun item result => f item = some result) items results := by
  induction items generalizing results with
  | nil => cases results <;> simp
  | cons item items ih =>
    rw [List.mapM_cons]
    cases results with
    | nil => simp [Option.bind_eq_some_iff]
    | cons head tail => simp [Option.bind_eq_some_iff, ← ih]

theorem splitOnP_eq_cons (separates : α → Bool) (items : List α) :
    items.splitOnP separates =
      items.takeWhile (!separates ·) :: (items.splitOnP separates).tail := by
  induction items with
  | nil => rfl
  | cons item items ih =>
    rw [List.splitOnP_cons_eq_if_modifyHead]
    split
    next cut => rw [List.takeWhile_cons_of_neg (by simp [cut]), List.tail_cons]
    next kept =>
      rw [List.takeWhile_cons_of_pos (by simpa using kept), ih, List.modifyHead_cons,
        List.tail_cons]

theorem splitOnP_append {separates : α → Bool} {front : List α}
    (free : ∀ item ∈ front, separates item = false) (items : List α) :
    (front ++ items).splitOnP separates = (items.splitOnP separates).modifyHead (front ++ ·) := by
  induction front with
  | nil => exact (congrFun List.modifyHead_id _).symm
  | cons item front ih =>
    obtain ⟨first, others⟩ := List.forall_mem_cons.mp free
    rw [List.cons_append, List.splitOnP_cons_eq_if_modifyHead, if_neg (by simp [first]), ih others,
      List.modifyHead_modifyHead]
    rfl

theorem itemAt?_eq_some {items : List α} {position : Int} {item : α} :
    itemAt? items position = some item ↔ ∃ place : Nat, items[place]? = some item ∧
      (position = place ∨ position = place - items.length) := by
  simp only [itemAt?]
  generalize counted : (if position < 0 then position + items.length else position) = place
  constructor
  · intro found
    split at found
    next => simp at found
    next inside =>
      refine ⟨place.toNat, found, ?_⟩
      split at counted <;> omega
  · rintro ⟨index, found, written⟩
    have within := (List.getElem?_eq_some_iff.mp found).1
    have same : place = index := by split at counted <;> omega
    rw [same, if_neg (by omega), Int.toNat_natCast, found]

theorem itemAt?_eq_none {items : List α} {position : Int} :
    itemAt? items position = none ↔ position < -items.length ∨ items.length ≤ position := by
  simp only [itemAt?]
  generalize counted : (if position < 0 then position + items.length else position) = place
  split
  next before => exact iff_of_true rfl (by split at counted <;> omega)
  next inside =>
    rw [List.getElem?_eq_none_iff]
    split at counted <;> omega

theorem itemAt?_natCast (items : List α) (place : Nat) : itemAt? items place = items[place]? := by
  rw [itemAt?, if_neg (by omega), if_neg (by omega), Int.toNat_natCast]

theorem itemAt?_map (f : α → β) (items : List α) (position : Int) :
    itemAt? (items.map f) position = (itemAt? items position).map f := by
  simp only [itemAt?, List.length_map, List.getElem?_map]
  generalize (if position < 0 then position + items.length else position) = place
  split <;> rfl

theorem mem_of_itemAt? {items : List α} {position : Int} {item : α}
    (found : itemAt? items position = some item) : item ∈ items := by
  obtain ⟨place, found, -⟩ := itemAt?_eq_some.mp found
  exact List.mem_of_getElem? found

end ToolGraph
