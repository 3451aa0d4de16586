import Mathlib.Data.List.Nodup
import Mathlib.Data.List.Perm.Basic
import ToolGraph.Entries

/-!
What the operations on tables do to the view `get?` and to the order of the keys. Tables made of pairs
hold the distinct keys in the order of their first occurrence.
-/
namespace ToolGraph.Entries
set_option linter.unusedSectionVars false

section views
variable {κ α β : Type} [BEq κ] [LawfulBEq κ] [DecidableEq κ]

@[simp] theorem get?_nil (key : κ) : get? ([] : Entries κ α) key = none := rfl

theorem get?_cons (other : κ) (value : α) (entries : Entries κ α) (key : κ) :
    get? ((other, value) :: entries) key = if other = key then some value else get? entries key := by
  by_cases same : other = key
  · simp [get?, same]
  · simp [get?, same]

theorem get?_append (first second : Entries κ α) (key : κ) :
    get? (first ++ second) key = (get? first key).or (get? second key) := by
  simp only [get?, List.find?_append]
  cases first.find? (·.1 == key) <;> rfl

theorem mem_of_get? {entries : Entries κ α} {key : κ} {value : α} (found : get? entries key = some value) :
    (key, value) ∈ entries := by
  induction entries with
  | nil => simp at found
  | cons entry rest ih =>
    obtain ⟨other, old⟩ := entry
    rw [get?_cons] at found
    split at found
    next same =>
      cases found
      exact same ▸ List.mem_cons_self
    next => exact List.mem_cons_of_mem _ (ih found)

theorem mem_keys_iff {entries : Entries κ α} {key : κ} :
    key ∈ keys entries ↔ ∃ value, get? entries key = some value := by
  induction entries with
  | nil => simp [keys]
  | cons entry rest ih =>
    obtain ⟨other, old⟩ := entry
    simp only [keys, List.map_cons, List.mem_cons] at ih ⊢
    rw [ih]
    simp only [get?_cons]
    by_cases same : other = key
    · simp [same]
    · simp [same, Ne.symm same]

theorem get?_eq_none_iff {entries : Entries κ α} {key : κ} :
    get? entries key = none ↔ key ∉ keys entries := by
  rw [mem_keys_iff]
  cases get? entries key <;> simp

theorem mem_keys_of_get? {entries : Entries κ α} {key : κ} {value : α}
    (found : get? entries key = some value) : key ∈ keys entries :=
  mem_keys_iff.mpr ⟨value, found⟩

theorem get?_of_mem {entries : Entries κ α} {key : κ} {value : α} (distinct : (keys entries).Nodup)
    (member : (key, value) ∈ entries) : get? entries key = some value := by
  induction entries with
  | nil => simp at member
  | cons entry rest ih =>
    obtain ⟨other, old⟩ := entry
    simp only [keys, List.map_cons, List.nodup_cons] at distinct
    rw [get?_cons]
    rcases List.mem_cons.mp member with same | later
    · cases same
      simp
    · have apart : other ≠ key := by
        intro same
        exact distinct.1 (same ▸ List.mem_map_of_mem (f := Prod.fst) later)
      rw [if_neg apart]
      exact ih distinct.2 later

theorem has_iff {entries : Entries κ α} {key : κ} : entries.has key = true ↔ key ∈ keys entries := by
  simp [has, keys]

theorem has_eq_false_iff {entries : Entries κ α} {key : κ} :
    entries.has key = false ↔ key ∉ keys entries := by
  rw [← has_iff]
  simp

theorem get?_erase {entries : Entries κ α} {key other : κ} (apart : other ≠ key) :
    get? (erase entries key) other = get? entries other := by
  have kept (entry : κ × α) :
      decide ((!entry.1 == key) = true ∧ (entry.1 == other) = true) = (entry.1 == other) := by
    by_cases same : entry.1 = other
    · simp [same, apart]
    · simp [same]
  simp only [get?, erase, List.find?_filter, kept]

/-! ### Setting values -/

@[simp] theorem get?_put (entries : Entries κ α) (key : κ) (value : α) (other : κ) :
    get? (put entries key value) other = if key = other then some value else get? entries other := by
  induction entries with
  | nil => simp [put, get?_cons]
  | cons entry rest ih =>
    obtain ⟨head, old⟩ := entry
    simp only [put, beq_iff_eq]
    split
    next same => subst same; simp only [get?_cons]; split <;> rfl
    next apart =>
      simp only [get?_cons, ih]
      by_cases first : head = other
      · simp [first, Ne.symm (first ▸ apart)]
      · simp [first]

theorem mem_put {entries : Entries κ α} {key : κ} {value : α} {entry : κ × α}
    (member : entry ∈ put entries key value) : entry = (key, value) ∨ entry ∈ entries := by
  induction entries with
  | nil => exact .inl (List.mem_singleton.mp member)
  | cons first rest ih =>
    obtain ⟨head, old⟩ := first
    simp only [put, beq_iff_eq] at member
    split at member
    next same =>
      subst same
      rcases List.mem_cons.mp member with new | later
      · exact .inl new
      · exact .inr (List.mem_cons_of_mem _ later)
    next =>
      rcases List.mem_cons.mp member with first | later
      · exact .inr (first ▸ List.mem_cons_self)
      · exact (ih later).imp_right (List.mem_cons_of_mem _)

theorem keys_put (entries : Entries κ α) (key : κ) (value : α) :
    keys (put entries key value) = if key ∈ keys entries then keys entries else keys entries ++ [key] := by
  induction entries with
  | nil => simp [put, keys]
  | cons entry rest ih =>
    obtain ⟨head, old⟩ := entry
    simp only [put, beq_iff_eq, keys, List.map_cons, List.mem_cons] at ih ⊢
    by_cases same : head = key
    · simp [same]
    · by_cases known : key ∈ List.map (fun entry => entry.1) rest
      · simp [same, ih, known]
      · simp [same, ih, known, Ne.symm same]

theorem mem_keys_put {entries : Entries κ α} {key other : κ} {value : α} :
    other ∈ keys (put entries key value) ↔ other = key ∨ other ∈ keys entries := by
  rw [keys_put]
  by_cases known : key ∈ keys entries
  · simp only [if_pos known]
    constructor
    · exact Or.inr
    · rintro (rfl | member)
      · exact known
      · exact member
  · simp only [if_neg known, List.mem_append, List.mem_singleton]
    exact Or.comm

theorem nodup_put {entries : Entries κ α} (distinct : (keys entries).Nodup) (key : κ) (value : α) :
    (keys (put entries key value)).Nodup := by
  rw [keys_put]
  split
  next => exact distinct
  next fresh =>
    exact List.nodup_append.mpr
      ⟨distinct, by simp, by simpa using fun x h => ne_of_mem_of_not_mem h fresh⟩

@[simp] theorem get?_putNew (entries : Entries κ α) (key : κ) (value : α) (other : κ) :
    get? (putNew entries key value) other =
      (get? entries other).or (if key = other then some value else none) := by
  unfold putNew
  split
  next known =>
    obtain ⟨old, found⟩ := mem_keys_iff.mp (has_iff.mp known)
    by_cases same : key = other
    · subst same; simp [found]
    · simp [same]
  next => rw [get?_append, get?_cons, get?_nil]

theorem mem_keys_putNew {entries : Entries κ α} {key other : κ} {value : α} :
    other ∈ keys (putNew entries key value) ↔ other = key ∨ other ∈ keys entries := by
  simp only [mem_keys_iff, get?_putNew]
  cases get? entries other <;> simp [eq_comm]

theorem mem_putNew {entries : Entries κ α} {key : κ} {value : α} {entry : κ × α}
    (member : entry ∈ putNew entries key value) : entry = (key, value) ∨ entry ∈ entries := by
  unfold putNew at member
  split at member
  next => exact .inr member
  next => simpa [or_comm] using member

theorem keys_putNew (entries : Entries κ α) (key : κ) (value : α) :
    keys (putNew entries key value) =
      if key ∈ keys entries then keys entries else keys entries ++ [key] := by
  unfold putNew
  by_cases known : key ∈ keys entries
  · rw [if_pos (has_iff.mpr known), if_pos known]
  · rw [if_neg (fun has => known (has_iff.mp has)), if_neg known]
    simp [keys]

theorem nodup_putNew {entries : Entries κ α} (distinct : (keys entries).Nodup) (key : κ) (value : α) :
    (keys (putNew entries key value)).Nodup := by
  rw [keys_putNew, ← keys_put entries key value]
  exact nodup_put distinct key value

/-! ### Whole tables -/

@[simp] theorem get?_mapValues (f : α → β) (entries : Entries κ α) (key : κ) :
    get? (mapValues f entries) key = (get? entries key).map f := by
  induction entries with
  | nil => rfl
  | cons entry rest ih =>
    obtain ⟨other, value⟩ := entry
    simp only [mapValues, List.map_cons] at ih ⊢
    rw [get?_cons, get?_cons, ih]
    split <;> rfl

@[simp] theorem keys_mapValues {κ : Type} (f : α → β) (entries : Entries κ α) :
    keys (mapValues f entries) = keys entries := by
  simp [keys, mapValues]

theorem mapValues_mapValues {κ γ : Type} (f : α → β) (g : β → γ) (entries : Entries κ α) :
    mapValues g (mapValues f entries) = mapValues (g ∘ f) entries := by
  simp [mapValues, Function.comp_def]

@[simp] theorem has_mapValues (f : α → β) (entries : Entries κ α) (key : κ) :
    (mapValues f entries).has key = entries.has key := by
  simp [has, mapValues, Function.comp_def]

theorem get?_map_keys {κ' : Type} [BEq κ'] [LawfulBEq κ'] [DecidableEq κ'] (f : κ → κ')
    (entries : Entries κ α) {key : κ} (apart : ∀ other ∈ keys entries, f other = f key → other = key) :
    get? (entries.map (fun entry => (f entry.1, entry.2))) (f key) = get? entries key := by
  induction entries with
  | nil => rfl
  | cons entry rest ih =>
    obtain ⟨other, value⟩ := entry
    obtain ⟨first, others⟩ := List.forall_mem_cons.mp apart
    have same : f other = f key ↔ other = key := ⟨first, congrArg f⟩
    rw [List.map_cons, get?_cons, get?_cons, ih others]
    simp only [same]

theorem mapValues_put (f : α → β) (entries : Entries κ α) (key : κ) (value : α) :
    mapValues f (entries.put key value) = (mapValues f entries).put key (f value) := by
  induction entries with
  | nil => rfl
  | cons entry rest ih =>
    obtain ⟨other, old⟩ := entry
    simp only [mapValues, put, List.map_cons] at ih ⊢
    split
    · rfl
    · rw [List.map_cons, ih]

theorem mapValues_merge (f : α → β) (entries pairs : Entries κ α) :
    mapValues f (merge entries pairs) = merge (mapValues f entries) (mapValues f pairs) := by
  induction pairs generalizing entries with
  | nil => rfl
  | cons pair rest ih =>
    change mapValues f (merge (put entries pair.1 pair.2) rest) =
      merge (put (mapValues f entries) pair.1 (f pair.2)) (mapValues f rest)
    rw [ih, mapValues_put]

theorem keys_merge (entries pairs : Entries κ α) :
    keys (merge entries pairs) = keys entries ++ ((keys pairs).removeAll (keys entries)).eraseDups := by
  induction pairs generalizing entries with
  | nil => simp [merge, keys]
  | cons pair rest ih =>
    obtain ⟨key, value⟩ := pair
    change keys (merge (put entries key value) rest) = _
    rw [ih, keys_put]
    change _ = keys entries ++ (List.removeAll (key :: keys rest) (keys entries)).eraseDups
    by_cases known : key ∈ keys entries
    · simp [known, List.removeAll]
    · have remaining : (keys rest).removeAll (keys entries ++ [key]) =
          ((keys rest).removeAll (keys entries)).filter (fun other => !other == key) := by
        simp only [List.removeAll, List.filter_filter]
        apply List.filter_congr
        intro other _
        by_cases same : other = key <;> simp [same]
      have kept : List.removeAll (key :: keys rest) (keys entries) =
          key :: (keys rest).removeAll (keys entries) := by
        simp [List.removeAll, known]
      rw [if_neg known, remaining, kept, List.eraseDups_cons]
      simp

theorem keys_ofPairs (pairs : Entries κ α) : keys (ofPairs pairs) = (keys pairs).eraseDups := by
  have merged := keys_merge ([] : Entries κ α) pairs
  simpa [keys, List.removeAll, merge, ofPairs] using merged

theorem mem_keys_ofPairs {pairs : Entries κ α} {key : κ} :
    key ∈ keys (ofPairs pairs) ↔ key ∈ keys pairs := by
  rw [keys_ofPairs, List.mem_eraseDups]

theorem mem_merge {entries pairs : Entries κ α} {entry : κ × α}
    (member : entry ∈ merge entries pairs) : entry ∈ entries ∨ entry ∈ pairs := by
  induction pairs generalizing entries with
  | nil => exact .inl member
  | cons pair rest ih =>
    rcases @ih (put entries pair.1 pair.2) member with old | later
    · rcases mem_put old with rfl | old
      · exact .inr List.mem_cons_self
      · exact .inl old
    · exact .inr (List.mem_cons_of_mem _ later)

theorem nodup_merge {entries : Entries κ α} (distinct : (keys entries).Nodup) (pairs : Entries κ α) :
    (keys (merge entries pairs)).Nodup := by
  induction pairs generalizing entries with
  | nil => exact distinct
  | cons pair rest ih => exact ih (nodup_put distinct pair.1 pair.2)

theorem nodup_ofPairs (pairs : Entries κ α) : (keys (ofPairs pairs)).Nodup :=
  nodup_merge (show (keys ([] : Entries κ α)).Nodup from List.nodup_nil) pairs

theorem get?_merge (entries pairs : Entries κ α) (key : κ) :
    get? (merge entries pairs) key = (get? pairs.reverse key).or (get? entries key) := by
  induction pairs generalizing entries with
  | nil => rfl
  | cons pair rest ih =>
    obtain ⟨other, value⟩ := pair
    change get? (merge (put entries other value) rest) key = _
    rw [ih, get?_put, List.reverse_cons, get?_append, get?_cons]
    cases get? rest.reverse key <;> by_cases same : other = key <;> simp [same]

theorem mem_of_get?_ofPairs {pairs : Entries κ α} {key : κ} {value : α}
    (found : get? (ofPairs pairs) key = some value) : (key, value) ∈ pairs := by
  have merged := get?_merge ([] : Entries κ α) pairs key
  have found : get? pairs.reverse key = some value := by
    simpa [ofPairs, merge] using merged.symm.trans found
  exact List.mem_reverse.mp (mem_of_get? found)

theorem put_of_fresh {entries : Entries κ α} {key : κ} (fresh : key ∉ keys entries) (value : α) :
    put entries key value = entries ++ [(key, value)] := by
  induction entries with
  | nil => rfl
  | cons entry rest ih =>
    simp only [keys, List.map_cons, List.mem_cons, not_or] at fresh ih ⊢
    simp [put, Ne.symm fresh.1, ih fresh.2]

theorem merge_of_distinct {entries pairs : Entries κ α} (distinct : (keys (entries ++ pairs)).Nodup) :
    merge entries pairs = entries ++ pairs := by
  induction pairs generalizing entries with
  | nil => simp [merge]
  | cons pair rest ih =>
    change merge (put entries pair.1 pair.2) rest = _
    have fresh : pair.1 ∉ keys entries := by
      simp only [keys, List.map_append, List.map_cons] at distinct ⊢
      exact fun known => List.disjoint_of_nodup_append distinct known List.mem_cons_self
    rw [put_of_fresh fresh, ih (by simpa using distinct)]
    simp

theorem ofPairs_of_distinct {pairs : Entries κ α} (distinct : (keys pairs).Nodup) :
    ofPairs pairs = pairs :=
  merge_of_distinct (show (keys ([] ++ pairs)).Nodup from distinct)

end views
end ToolGraph.Entries
