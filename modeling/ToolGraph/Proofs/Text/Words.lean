import Mathlib.Data.List.TakeWhile
import ToolGraph.Proofs.Lists
import ToolGraph.Text.Blank
import ToolGraph.Text.Cut

/-!
White space at the ends of a text, and the words between white space. Cutting a text at a word fails
exactly if the word is none of its words, and otherwise cuts it at the first one.
-/
namespace ToolGraph.Text

/-- White space and nothing else. -/
def IsGap (text : List Char) : Prop := ∀ c ∈ text, isBlank c = true

instance (text : List Char) : Decidable (IsGap text) :=
  decidable_of_iff (text.all isBlank = true) List.all_eq_true

theorem isGap_nil : IsGap [] := by decide

/-! ### Ends -/

section ends
variable {p : Char → Bool} {front back : List Char}

theorem dropEndWhile_append_of_pos (drops : ∀ c ∈ back, p c = true) (text : List Char) :
    dropEndWhile p (text ++ back) = dropEndWhile p text := by
  have flipped : ∀ c ∈ back.reverse, p c = true := fun c member => drops c (List.mem_reverse.mp member)
  rw [dropEndWhile, dropEndWhile, List.reverse_append, List.dropWhile_append_of_pos flipped]

theorem trimWhile_of_pos {text : List Char} (drops : ∀ c ∈ text, p c = true) :
    trimWhile p text = [] := by
  rw [trimWhile, List.dropWhile_eq_nil_iff.mpr drops]
  rfl

theorem trimWhile_padded (drops : ∀ c ∈ front, p c = true) (drops' : ∀ c ∈ back, p c = true)
    (text : List Char) : trimWhile p (front ++ text ++ back) = trimWhile p text := by
  by_cases all : ∀ c ∈ text, p c = true
  · have whole : ∀ c ∈ text ++ back, p c = true := List.forall_mem_append.mpr ⟨all, drops'⟩
    rw [trimWhile_of_pos all, List.append_assoc,
      trimWhile_of_pos (List.forall_mem_append.mpr ⟨drops, whole⟩)]
  · have stays : (text ++ back).dropWhile p = text.dropWhile p ++ back := by
      rw [List.dropWhile_append, if_neg]
      intro none
      rw [List.isEmpty_iff, List.dropWhile_eq_nil_iff] at none
      exact all none
    rw [trimWhile, List.append_assoc, List.dropWhile_append_of_pos drops, stays,
      dropEndWhile_append_of_pos drops']
    rfl

theorem exists_dropEndWhile (p : Char → Bool) (text : List Char) :
    ∃ back, (∀ c ∈ back, p c = true) ∧ text = dropEndWhile p text ++ back := by
  refine ⟨(text.reverse.takeWhile p).reverse, ?_, ?_⟩
  · exact fun c member => List.mem_takeWhile_imp (List.mem_reverse.mp member)
  · rw [dropEndWhile, ← List.reverse_append, List.takeWhile_append_dropWhile, List.reverse_reverse]

/-- What trimming takes away is what it is meant to. -/
theorem exists_trimWhile (p : Char → Bool) (text : List Char) : ∃ front back,
    (∀ c ∈ front, p c = true) ∧ (∀ c ∈ back, p c = true) ∧
      text = front ++ trimWhile p text ++ back := by
  obtain ⟨back, drops, whole⟩ := exists_dropEndWhile p (text.dropWhile p)
  refine ⟨text.takeWhile p, back, fun c member => List.mem_takeWhile_imp member, drops, ?_⟩
  rw [List.append_assoc]
  exact List.takeWhile_append_dropWhile.symm.trans (congrArg _ whole)

theorem dropWhile_of_first {text : List Char} (first : ∀ c ∈ text.head?, p c = false) :
    text.dropWhile p = text := by
  cases text with
  | nil => rfl
  | cons c rest => exact List.dropWhile_cons_of_neg (by simp [first c rfl])

theorem trimWhile_of_ends {text : List Char} (first : ∀ c ∈ text.head?, p c = false)
    (last : ∀ c ∈ text.getLast?, p c = false) : trimWhile p text = text := by
  rw [← List.head?_reverse] at last
  rw [trimWhile, dropWhile_of_first first, dropEndWhile, dropWhile_of_first last, List.reverse_reverse]

theorem trimWhile_of_free {text : List Char} (free : ∀ c ∈ text, p c = false) : trimWhile p text = text :=
  trimWhile_of_ends (fun c first => free c (List.mem_of_mem_head? first))
    fun c last => free c (List.mem_of_mem_getLast? last)

end ends

theorem trim_of_gap {gap : List Char} (blank : IsGap gap) : trim gap = [] := trimWhile_of_pos blank

theorem trim_padded {before after : List Char} (blank : IsGap before) (blank' : IsGap after)
    (text : List Char) : trim (before ++ text ++ after) = trim text :=
  trimWhile_padded blank blank' text

theorem exists_trimEnd (text : List Char) :
    ∃ rest gap, IsGap gap ∧ text = rest ++ gap ∧ ∀ c ∈ rest.getLast?, isBlank c = false := by
  obtain ⟨gap, blank, whole⟩ := exists_dropEndWhile isBlank text
  refine ⟨dropEndWhile isBlank text, gap, blank, whole, ?_⟩
  intro c last
  rw [dropEndWhile, List.getLast?_reverse] at last
  have stops := List.head?_dropWhile_not isBlank text.reverse
  rw [Option.mem_def.mp last] at stops
  simpa using stops

/-- What trimming takes away is white space. -/
theorem exists_trim (text : List Char) :
    ∃ before after, IsGap before ∧ IsGap after ∧ text = before ++ trim text ++ after :=
  exists_trimWhile isBlank text

theorem trim_ne_nil {text : List Char} {c : Char} (member : c ∈ text)
    (written : isBlank c = false) : trim text ≠ [] := by
  intro none
  obtain ⟨before, after, blank, blank', whole⟩ := exists_trim text
  rw [none, List.append_nil] at whole
  have gap : IsGap text := whole ▸ List.forall_mem_append.mpr ⟨blank, blank'⟩
  simp [gap c member] at written

/-- A text that neither starts nor ends with white space. -/
structure IsTrimmed (text : List Char) : Prop where
  first : ∀ c ∈ text.head?, isBlank c = false
  last : ∀ c ∈ text.getLast?, isBlank c = false

theorem IsTrimmed.trim {text : List Char} (trimmed : IsTrimmed text) : trim text = text :=
  trimWhile_of_ends trimmed.first trimmed.last

theorem isTrimmed_iff (text : List Char) :
    (text.head?.all (!isBlank ·) && text.getLast?.all (!isBlank ·)) = true ↔ IsTrimmed text := by
  rw [Bool.and_eq_true, Option.all_eq_true, Option.all_eq_true]
  simp only [Bool.not_eq_true']
  exact ⟨fun ⟨first, last⟩ => ⟨first, last⟩, fun trimmed => ⟨trimmed.first, trimmed.last⟩⟩

instance (text : List Char) : Decidable (IsTrimmed text) := decidable_of_iff _ (isTrimmed_iff text)

theorem forall_of_all {text : List Char} (each : text.all (!isBlank ·) = true) :
    ∀ c ∈ text, isBlank c = false := by
  simpa using each

theorem isTrimmed_of_unspaced {text : List Char} (unspaced : ∀ c ∈ text, isBlank c = false) :
    IsTrimmed text where
  first c known := unspaced c (List.mem_of_mem_head? known)
  last c known := unspaced c (List.mem_of_mem_getLast? known)

/-! ### Words -/

/-- The words of a text, taken between white space. Where nothing stands between, the word is empty. -/
def words (text : List Char) : List (List Char) := text.splitOnP isBlank

variable {word : List Char}

theorem words_cons (c : Char) (rest : List Char) :
    words (c :: rest) =
      if isBlank c then [] :: words rest else (words rest).modifyHead (c :: ·) :=
  List.splitOnP_cons_eq_if_modifyHead c rest

theorem words_append_cons (text rest : List Char) {c : Char} (blank : isBlank c = true) :
    words (text ++ c :: rest) = words text ++ words rest :=
  List.splitOnP_append_cons text rest blank

theorem mem_words_gap_append (some : word ≠ []) {gap : List Char} (blank : IsGap gap)
    (text : List Char) : word ∈ words (gap ++ text) ↔ word ∈ words text := by
  induction gap with
  | nil => rfl
  | cons c gap ih =>
    obtain ⟨first, later⟩ := List.forall_mem_cons.mp blank
    rw [List.cons_append, words_cons, if_pos first, List.mem_cons, ih later]
    simp [some]

theorem mem_words_append (some : word ≠ []) {gap : List Char} (blank : IsGap gap) (wide : gap ≠ [])
    (one two : List Char) :
    word ∈ words (one ++ gap ++ two) ↔ word ∈ words one ∨ word ∈ words two := by
  obtain ⟨c, rest, rfl⟩ := List.exists_cons_of_ne_nil wide
  obtain ⟨first, later⟩ := List.forall_mem_cons.mp blank
  rw [List.append_assoc, List.cons_append, words_append_cons _ _ first, List.mem_append,
    mem_words_gap_append some later]

theorem words_nil : words [] = [[]] := rfl

theorem words_of_unspaced {text : List Char} (unspaced : ∀ c ∈ text, isBlank c = false) :
    words text = [text] :=
  List.splitOnP_eq_singleton fun c member => by simp [unspaced c member]

theorem mem_words_append_gap (some : word ≠ []) {gap : List Char} (blank : IsGap gap)
    (text : List Char) : word ∈ words (text ++ gap) ↔ word ∈ words text := by
  by_cases wide : gap = []
  · rw [wide, List.append_nil]
  · rw [← List.append_nil (text ++ gap), mem_words_append some blank wide]
    simp [words_nil, some]

theorem mem_words_trim (some : word ≠ []) (text : List Char) :
    word ∈ words (trim text) ↔ word ∈ words text := by
  obtain ⟨before, after, blank, blank', whole⟩ := exists_trim text
  calc word ∈ words (trim text) ↔ word ∈ words (before ++ trim text) :=
        (mem_words_gap_append some blank _).symm
    _ ↔ word ∈ words (before ++ trim text ++ after) := (mem_words_append_gap some blank' _).symm
    _ ↔ word ∈ words text := by rw [← whole]

/-! ### Cutting at a word -/

/-- What stands before the first white space. -/
def firstWord (text : List Char) : List Char := text.takeWhile (!isBlank ·)

theorem firstWord_cons_blank {c : Char} (blank : isBlank c = true) (rest : List Char) :
    firstWord (c :: rest) = [] :=
  List.takeWhile_cons_of_neg (by simp [blank])

theorem firstWord_append_gap {gap : List Char} (blank : IsGap gap) (wide : gap ≠ [])
    (text rest : List Char) : firstWord (text ++ gap ++ rest) = firstWord text := by
  obtain ⟨c, gap, rfl⟩ := List.exists_cons_of_ne_nil wide
  induction text with
  | nil => exact firstWord_cons_blank (blank c List.mem_cons_self) _
  | cons d text ih =>
    simp only [List.append_assoc, List.cons_append] at ih ⊢
    rw [firstWord, firstWord, List.takeWhile_cons, List.takeWhile_cons]
    split
    · exact congrArg (d :: ·) ih
    · rfl

def wordsFrom (fresh : Bool) (text : List Char) : List (List Char) :=
  if fresh then words text else (words text).tail

theorem words_eq_cons (text : List Char) : words text = firstWord text :: (words text).tail :=
  splitOnP_eq_cons isBlank text

theorem tail_words_cons (c : Char) (rest : List Char) :
    (words (c :: rest)).tail = wordsFrom (isBlank c) rest := by
  rw [words_cons, wordsFrom]
  split
  · rfl
  · rw [words_eq_cons rest, List.modifyHead_cons, List.tail_cons, List.tail_cons]

theorem mem_wordsFrom_cons {fresh : Bool} {c : Char} {rest : List Char} :
    word ∈ wordsFrom fresh (c :: rest) ↔
      fresh = true ∧ firstWord (c :: rest) = word ∨ word ∈ wordsFrom (isBlank c) rest := by
  cases fresh with
  | true =>
    rw [wordsFrom, if_pos rfl, words_eq_cons, tail_words_cons, List.mem_cons]
    simp [eq_comm]
  | false => simp [wordsFrom, tail_words_cons]

section cuts
variable (written : ∀ c ∈ word, isBlank c = false)
include written

theorem starts_iff (text : List Char) :
    (word.isPrefixOf text && (text.drop word.length).head?.all isBlank) = true ↔
      firstWord text = word := by
  rw [Bool.and_eq_true, List.isPrefixOf_iff_prefix]
  have inside : ∀ c ∈ word, (!isBlank c) = true := fun c member => by simp [written c member]
  constructor
  · rintro ⟨⟨rest, rfl⟩, ends⟩
    rw [List.drop_left] at ends
    rw [firstWord, List.takeWhile_append_of_pos inside]
    cases rest with
    | nil => simp
    | cons c rest =>
      have blank : isBlank c = true := ends
      rw [List.takeWhile_cons_of_neg (by simp [blank]), List.append_nil]
  · intro same
    have whole : word ++ text.dropWhile (!isBlank ·) = text :=
      same ▸ List.takeWhile_append_dropWhile
    have rest : text.drop word.length = text.dropWhile (!isBlank ·) := by
      conv => lhs; rw [← whole, List.drop_left]
    refine ⟨⟨_, whole⟩, ?_⟩
    rw [rest]
    cases remains : text.dropWhile (!isBlank ·) with
    | nil => rfl
    | cons c tail => simpa [remains] using List.head?_dropWhile_not (!isBlank ·) text

theorem cutAtWord?_cons (fresh : Bool) (c : Char) (rest : List Char) :
    cutAtWord? isBlank word fresh (c :: rest) =
      if fresh = true ∧ firstWord (c :: rest) = word then some ([], (c :: rest).drop word.length)
      else (cutAtWord? isBlank word (isBlank c) rest).map (fun cut => (c :: cut.1, cut.2)) := by
  rw [cutAtWord?]
  simp only [Bool.and_assoc]
  cases fresh with
  | false => simp
  | true => simp only [Bool.true_and, starts_iff written, true_and]

theorem cutAtWord?_eq_none_iff (some : word ≠ []) {fresh : Bool} {text : List Char} :
    cutAtWord? isBlank word fresh text = none ↔ word ∉ wordsFrom fresh text := by
  induction text generalizing fresh with
  | nil => cases fresh <;> simp [cutAtWord?, wordsFrom, words_nil, some]
  | cons c rest ih =>
    rw [cutAtWord?_cons written, mem_wordsFrom_cons]
    split
    next starts => simp [starts]
    next other => simp [other, ih]

theorem append_of_cutAtWord? {fresh : Bool} {text front after : List Char}
    (cut : cutAtWord? isBlank word fresh text = some (front, after)) :
    text = front ++ word ++ after ∧ (front = [] → firstWord text = word) := by
  induction text generalizing fresh front with
  | nil => simp [cutAtWord?] at cut
  | cons c rest ih =>
    rw [cutAtWord?_cons written] at cut
    split at cut
    next starts =>
      obtain ⟨rfl, rfl⟩ := Prod.mk.inj (Option.some.inj cut)
      obtain ⟨begins, -⟩ := Bool.and_eq_true_iff.mp ((starts_iff written _).mpr starts.2)
      obtain ⟨tail, same⟩ := List.isPrefixOf_iff_prefix.mp begins
      refine ⟨?_, fun _ => starts.2⟩
      rw [← same, List.drop_left, List.nil_append]
    next =>
      obtain ⟨⟨before, later⟩, known, same⟩ := Option.map_eq_some_iff.mp cut
      obtain ⟨rfl, rfl⟩ := Prod.mk.inj same
      exact ⟨by rw [(ih known).1]; rfl, by simp⟩

theorem cutAtWord?_gap_append (some : word ≠ []) {fresh : Bool} {gap after : List Char}
    (blank : IsGap gap) (begins : gap = [] → fresh = true)
    (ends : ∀ c ∈ after.head?, isBlank c = true) :
    cutAtWord? isBlank word fresh (gap ++ word ++ after) = Option.some (gap, after) := by
  induction gap generalizing fresh with
  | nil =>
    have starts : firstWord (word ++ after) = word := by
      refine (starts_iff written _).mp (Bool.and_eq_true_iff.mpr ⟨?_, ?_⟩)
      · exact List.isPrefixOf_iff_prefix.mpr (List.prefix_append word after)
      · rw [List.drop_left]
        cases after with
        | nil => rfl
        | cons c after => exact ends c rfl
    obtain ⟨c, rest, rfl⟩ := List.exists_cons_of_ne_nil some
    rw [List.nil_append, List.cons_append, cutAtWord?_cons written, if_pos ⟨begins rfl, starts⟩,
      ← List.cons_append, List.drop_left]
  | cons c gap ih =>
    obtain ⟨first, later⟩ := List.forall_mem_cons.mp blank
    rw [List.cons_append, List.cons_append, cutAtWord?_cons written, firstWord_cons_blank first,
      if_neg (fun both => some both.2.symm), ih later (fun _ => first)]
    rfl

theorem cutAtWord?_append (some : word ≠ []) {text gap after : List Char} {fresh : Bool}
    (other : word ∉ wordsFrom fresh text) (blank : IsGap gap) (wide : gap ≠ [])
    (ends : ∀ c ∈ after.head?, isBlank c = true) :
    cutAtWord? isBlank word fresh (text ++ gap ++ word ++ after) =
      Option.some (text ++ gap, after) := by
  induction text generalizing fresh with
  | nil => exact cutAtWord?_gap_append written some blank (fun none => absurd none wide) ends
  | cons c text ih =>
    rw [mem_wordsFrom_cons, not_or] at other
    obtain ⟨first, later⟩ := other
    have same : firstWord (c :: (text ++ gap ++ word ++ after)) = firstWord (c :: text) := by
      rw [List.append_assoc _ word]
      exact firstWord_append_gap blank wide (c :: text) (word ++ after)
    simp only [List.cons_append]
    rw [cutAtWord?_cons written, same, if_neg first, ih later]
    rfl

end cuts

end ToolGraph.Text
