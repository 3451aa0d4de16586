import ToolGraph.Proofs.Entries
import ToolGraph.Proofs.Json.Numbers
import ToolGraph.Proofs.Json.Texts

/-!
What is printed as JSON is read back as the same data, for every layout that leaves characters as they
are. Each piece of the text takes fewer steps than it has characters.
-/
namespace ToolGraph.Json
open Text

/-- Data in which an object has every key once and only these floats occur. -/
inductive Proper (allowed : Binary64 → Prop) : Json → Prop
  | null : Proper allowed .null
  | bool (value : Bool) : Proper allowed (.bool value)
  | int (value : Int) : Proper allowed (.int value)
  | float {value : Binary64} : allowed value → Proper allowed (.float value)
  | text (value : String) : Proper allowed (.text value)
  | list {items : List Json} : (∀ item ∈ items, Proper allowed item) → Proper allowed (.list items)
  | object {members : List (String × Json)} : (Entries.keys members).Nodup →
      (∀ member ∈ members, Proper allowed member.2) → Proper allowed (.object members)

theorem Proper.mono {allowed wider : Binary64 → Prop} (weaker : ∀ value, allowed value → wider value)
    {json : Json} (proper : json.Proper allowed) : json.Proper wider := by
  induction proper with
  | null => exact .null
  | bool value => exact .bool value
  | int value => exact .int value
  | float fits => exact .float (weaker _ fits)
  | text value => exact .text value
  | list _ ih => exact .list ih
  | object distinct _ ih => exact .object distinct ih

theorem itemsPrintable_iff {items : List Json} :
    itemsPrintable items = true ↔ ∀ item ∈ items, item.isPrintable = true := by
  induction items with
  | nil => simp [itemsPrintable]
  | cons item items ih => simp [itemsPrintable, ih]

theorem membersPrintable_iff {members : List (String × Json)} :
    membersPrintable members = true ↔ ∀ member ∈ members, member.2.isPrintable = true := by
  induction members with
  | nil => simp [membersPrintable]
  | cons member members ih => simp [membersPrintable, ih]

theorem isPrintable_list {items : List Json} :
    (Json.list items).isPrintable = true ↔ ∀ item ∈ items, item.isPrintable = true :=
  itemsPrintable_iff

theorem isPrintable_object {members : List (String × Json)} :
    (Json.object members).isPrintable = true ↔ ∀ member ∈ members, member.2.isPrintable = true :=
  membersPrintable_iff

theorem isPrintable_natCast {value : Nat} :
    (Json.int value).isPrintable = true ↔ value < 10 ^ Number.maxDigits := by
  rw [isPrintable, isWritable_iff, Int.natAbs_natCast]

/-! ### Blanks -/

section blanks
variable {blanks rest : List Char}

theorem skipSpaces_append (all : ∀ c ∈ blanks, isSpace c = true) :
    skipSpaces (blanks ++ rest) = skipSpaces rest :=
  List.dropWhile_append_of_pos all

theorem isSpace_of_mem_margin {layout : Layout} {depth : Nat} :
    ∀ c ∈ layout.margin depth, isSpace c = true := by
  intro c member
  unfold Layout.margin at member
  split at member
  next => exact absurd member List.not_mem_nil
  next width =>
    rcases List.mem_cons.mp member with rfl | later
    · rfl
    · rw [List.eq_of_mem_replicate later]
      rfl

theorem between_eq (layout : Layout) (depth : Nat) :
    ∃ blanks, layout.between depth = ',' :: blanks ∧ ∀ c ∈ blanks, isSpace c = true := by
  unfold Layout.between
  split
  next => exact ⟨[' '], rfl, by simp [isSpace]⟩
  next => exact ⟨layout.margin depth, rfl, isSpace_of_mem_margin⟩

theorem readScalar_malformed {c : Char}
    (other : c ∉ ['"', '-', 'n', 't', 'f', 'N', 'I']) (noDigit : isAsciiDigit c = false) :
    readScalar (c :: rest) = .error .malformed := by
  have apart : ∀ d ∈ ['"', '-', 'n', 't', 'f', 'N', 'I'], c ≠ d ∧ (d == c) = false := by
    intro d member
    have different : c ≠ d := fun same => other (same ▸ member)
    exact ⟨different, beq_eq_false_iff_ne.mpr different.symm⟩
  have zero : c ≠ '0' := by
    rintro rfl
    exact absurd noDigit (by decide)
  simp [readScalar, words, List.isPrefixOf, apart '"' (by decide), apart '-' (by decide),
    apart 'n' (by decide), apart 't' (by decide), apart 'f' (by decide), apart 'N' (by decide),
    apart 'I' (by decide), readNumber, cutWhole, zero, noDigit]

theorem readScalar_nil : readScalar [] = .error .malformed := by
  simp [readScalar, words, List.isPrefixOf, readNumber, cutWhole]

theorem readValue_of_scalar {steps : Nat} {text : List Char} {read : Json × List Char}
    (given : readScalar text = .ok read) : readValue (steps + 1) text = .ok read := by
  have apart : ∀ c rest, readScalar (c :: rest) = .error .malformed → text ≠ c :: rest := by
    rintro c rest malformed rfl
    exact absurd (malformed.symm.trans given) (by simp)
  rw [readValue.eq_def]
  split
  next none => exact absurd none (Nat.succ_ne_zero steps)
  next => exact absurd rfl (apart _ _ (readScalar_malformed (by decide) rfl))
  next => exact absurd rfl (apart _ _ (readScalar_malformed (by decide) rfl))
  next => exact given

theorem starts_of_readValue {steps : Nat} {text : List Char} {read : Json × List Char}
    (given : readValue steps text = .ok read) :
    ∃ c more, text = c :: more ∧ isSpace c = false ∧ c ≠ ']' := by
  have apart : ∀ c rest, readScalar (c :: rest) = .error .malformed → c ≠ '[' → c ≠ '\x7b' →
      text ≠ c :: rest := by
    rintro c rest malformed bracket brace rfl
    rw [readValue.eq_def] at given
    split at given
    next => simp at given
    next same => exact bracket (List.cons.inj same).1
    next same => exact brace (List.cons.inj same).1
    next => exact absurd (malformed.symm.trans given) (by simp)
  cases text with
  | nil =>
    cases steps with
    | zero => simp [readValue] at given
    | succ steps => simp [readValue, readScalar_nil] at given
  | cons c rest =>
    refine ⟨c, rest, rfl, Bool.eq_false_iff.mpr fun blank => ?_, ?_⟩
    · have cases : c = ' ' ∨ c = '\t' ∨ c = '\n' ∨ c = '\r' := by
        simpa [isSpace, or_assoc] using blank
      rcases cases with rfl | rfl | rfl | rfl <;>
        exact apart _ rest (readScalar_malformed (by decide) rfl) (by decide) (by decide) rfl
    · rintro rfl
      exact apart _ rest (readScalar_malformed (by decide) rfl) (by decide) (by decide) rfl

end blanks

/-! ### Data -/

def ReadsBack (layout : Layout) (json : Json) : Prop :=
  ∀ (depth steps : Nat) (rest : List Char), NoNumber rest →
    (chars layout depth json).length ≤ steps →
    readValue steps (chars layout depth json ++ rest) = .ok (json, rest)

section pieces
variable {layout : Layout} {depth outer steps : Nat} {rest : List Char}

theorem noNumber_margin {close : Char} (bracket : close ∈ [']', '\x7d']) :
    NoNumber (layout.margin outer ++ close :: rest) := by
  unfold Layout.margin
  split
  next =>
    rintro c ⟨⟩
    simp only [List.mem_cons, List.not_mem_nil, or_false] at bracket
    rcases bracket with rfl | rfl <;> decide
  next =>
    rintro c ⟨⟩
    decide

theorem skipSpaces_margin {close : Char} (bracket : close ∈ [']', '\x7d']) :
    skipSpaces (layout.margin outer ++ close :: rest) = close :: rest := by
  rw [skipSpaces_append isSpace_of_mem_margin]
  apply List.dropWhile_cons_of_neg
  simp only [List.mem_cons, List.not_mem_nil, or_false] at bracket
  rcases bracket with rfl | rfl <;> decide

theorem noNumber_between : NoNumber (layout.between depth ++ rest) := by
  obtain ⟨blanks, same, -⟩ := between_eq layout depth
  rw [same]
  rintro c ⟨⟩
  decide

theorem between_cons (layout : Layout) (depth : Nat) (rest : List Char) :
    ∃ blanks, skipSpaces (layout.between depth ++ rest) = ',' :: (blanks ++ rest) ∧
      skipSpaces (blanks ++ rest) = skipSpaces rest := by
  obtain ⟨blanks, same, all⟩ := between_eq layout depth
  refine ⟨blanks, ?_, skipSpaces_append all⟩
  rw [same]
  exact List.dropWhile_cons_of_neg (by decide)

theorem length_between (layout : Layout) (depth : Nat) : 0 < (layout.between depth).length := by
  obtain ⟨blanks, same, -⟩ := between_eq layout depth
  rw [same]
  exact Nat.succ_pos _

theorem ReadsBack.starts {json : Json} (back : ReadsBack layout json) (depth : Nat) :
    ∃ c more, chars layout depth json = c :: more ∧ isSpace c = false ∧ c ≠ ']' := by
  have ends : NoNumber [']'] := by
    rintro c ⟨⟩
    decide
  have read := back depth _ _ ends le_rfl
  obtain ⟨c, more, same, blank, bracket⟩ := starts_of_readValue read
  cases written : chars layout depth json with
  | nil =>
    rw [written] at same
    exact absurd (List.cons.inj same).1.symm bracket
  | cons first text =>
    rw [written] at same
    exact ⟨c, text, by rw [(List.cons.inj same).1], blank, bracket⟩

theorem ReadsBack.skipSpaces {json : Json} (back : ReadsBack layout json) (depth : Nat)
    (rest : List Char) :
    skipSpaces (chars layout depth json ++ rest) = chars layout depth json ++ rest := by
  obtain ⟨c, more, same, blank, -⟩ := back.starts depth
  rw [same]
  exact List.dropWhile_cons_of_neg (Bool.eq_false_iff.mp blank)

theorem readItems_chars {item : Json} {items : List Json}
    (all : ∀ json ∈ item :: items, ReadsBack layout json)
    (enough : (chars layout depth item).length + (itemChars layout depth items).length < steps) :
    readItems steps (chars layout depth item ++ (itemChars layout depth items ++
      (layout.margin outer ++ ']' :: rest))) = .ok (item :: items, rest) := by
  induction items generalizing item steps with
  | nil =>
    obtain ⟨steps, rfl⟩ := Nat.exists_eq_succ_of_ne_zero (Nat.ne_zero_of_lt enough)
    have ends : NoNumber (layout.margin outer ++ ']' :: rest) := noNumber_margin (by decide)
    have first := all item List.mem_cons_self depth steps _ ends (by omega)
    rw [itemChars, List.nil_append, readItems, first]
    simp only [bind, Except.bind]
    rw [skipSpaces_margin (by decide)]
    rfl
  | cons second items ih =>
    obtain ⟨steps, rfl⟩ := Nat.exists_eq_succ_of_ne_zero (Nat.ne_zero_of_lt enough)
    have comma := length_between layout depth
    simp only [itemChars, List.length_append, List.append_assoc] at enough ⊢
    have others := @ih steps second (fun json member => all json (List.mem_cons_of_mem _ member))
      (by omega)
    have skipped := (all second (by simp)).skipSpaces depth
      (itemChars layout depth items ++ (layout.margin outer ++ ']' :: rest))
    generalize chars layout depth second ++ (itemChars layout depth items ++
      (layout.margin outer ++ ']' :: rest)) = more at others skipped
    have ends : NoNumber (layout.between depth ++ more) := noNumber_between
    have first := all item List.mem_cons_self depth steps _ ends (by omega)
    obtain ⟨blanks, next, behind⟩ := between_cons layout depth more
    rw [readItems, first]
    simp only [bind, Except.bind]
    rw [next]
    simp only
    rw [behind, skipped, others]
    rfl

theorem readMembers_chars (plain : layout.asciiOnly = false) {key : String} {value : Json}
    {members : List (String × Json)} (first : ReadsBack layout value)
    (all : ∀ member ∈ members, ReadsBack layout member.2)
    (enough : (chars layout depth value).length + (memberChars layout depth members).length < steps) :
    readMembers steps (quoted layout.asciiOnly key ++ [':', ' '] ++ (chars layout depth value ++
      (memberChars layout depth members ++ (layout.margin outer ++ '\x7d' :: rest)))) =
      .ok ((key, value) :: members, rest) := by
  obtain ⟨steps, rfl⟩ := Nat.exists_eq_succ_of_ne_zero (Nat.ne_zero_of_lt enough)
  have colon : ∀ more, skipSpaces (':' :: more) = ':' :: more := fun more =>
    List.dropWhile_cons_of_neg (by decide)
  have blank : ∀ more, skipSpaces (' ' :: more) = skipSpaces more := fun more =>
    List.dropWhile_cons_of_pos (by decide)
  induction members generalizing key value steps with
  | nil =>
    have ends : NoNumber (layout.margin outer ++ '\x7d' :: rest) := noNumber_margin (by decide)
    have skipped := first.skipSpaces depth (layout.margin outer ++ '\x7d' :: rest)
    have read := first depth steps _ ends (by omega)
    simp only [plain, quoted, memberChars, List.nil_append, List.cons_append, List.append_assoc]
    rw [readMembers, readText_quoted]
    simp only [bind, Except.bind, colon, blank]
    rw [skipped, read]
    simp only
    rw [skipSpaces_margin (by decide)]
    rfl
  | cons member members ih =>
    obtain ⟨other, second⟩ := member
    have comma := length_between layout depth
    simp only [memberChars, List.length_append, List.append_assoc] at enough ⊢
    obtain ⟨steps, rfl⟩ := Nat.exists_eq_succ_of_ne_zero (show steps ≠ 0 by omega)
    have others := @ih other second (all _ List.mem_cons_self)
      (fun member known => all member (List.mem_cons_of_mem _ known)) steps (by omega)
    have skipped : ∀ more, skipSpaces (quoted layout.asciiOnly other ++ [':', ' '] ++ more) =
        quoted layout.asciiOnly other ++ [':', ' '] ++ more := fun more =>
      List.dropWhile_cons_of_neg (by decide)
    specialize skipped (chars layout depth second ++ (memberChars layout depth members ++
      (layout.margin outer ++ '\x7d' :: rest)))
    simp only [List.append_assoc] at others skipped
    generalize quoted layout.asciiOnly other ++ ([':', ' '] ++ (chars layout depth second ++
      (memberChars layout depth members ++ (layout.margin outer ++ '\x7d' :: rest)))) = more
      at others skipped
    have ends : NoNumber (layout.between depth ++ more) := noNumber_between
    have start := first.skipSpaces depth (layout.between depth ++ more)
    have read := first depth steps.succ _ ends (by omega)
    obtain ⟨blanks, next, behind⟩ := between_cons layout depth more
    simp only [plain, quoted, List.nil_append, List.cons_append, List.append_assoc]
    rw [readMembers, readText_quoted]
    simp only [bind, Except.bind, colon, blank]
    rw [start, read]
    simp only
    rw [next]
    simp only
    rw [behind, skipped, others]
    rfl

theorem readsBack_scalar {json : Json} (read : ∀ {depth : Nat} {rest : List Char}, NoNumber rest →
    readScalar (chars layout depth json ++ rest) = .ok (json, rest)) : ReadsBack layout json := by
  intro depth steps rest ends enough
  cases steps with
  | zero =>
    have none := List.length_eq_zero_iff.mp (Nat.le_zero.mp enough)
    have read := @read depth [] (by simp [NoNumber])
    rw [none, List.nil_append, readScalar_nil] at read
    simp at read
  | succ steps => exact readValue_of_scalar (read ends)

theorem readsBack_list {items : List Json} (all : ∀ json ∈ items, ReadsBack layout json) :
    ReadsBack layout (.list items) := by
  intro depth steps rest ends enough
  obtain ⟨steps, rfl⟩ := Nat.exists_eq_succ_of_ne_zero (show steps ≠ 0 by
    rintro rfl
    cases items <;> simp [chars] at enough)
  cases items with
  | nil => rfl
  | cons item items =>
    have first := all item List.mem_cons_self
    simp only [chars, List.length_cons, List.length_append, List.append_assoc, List.cons_append,
      List.nil_append] at enough ⊢
    have read : readItems steps (chars layout (depth + 1) item ++
        (itemChars layout (depth + 1) items ++ (layout.margin depth ++ ']' :: rest))) =
        .ok (item :: items, rest) := readItems_chars all (by omega)
    rw [readValue, skipSpaces_append isSpace_of_mem_margin, first.skipSpaces]
    split
    next more same =>
      obtain ⟨c, text, written, -, bracket⟩ := first.starts (depth + 1)
      rw [written] at same
      exact absurd (List.cons.inj same).1 bracket
    next =>
      rw [read]
      rfl

theorem readsBack_object (plain : layout.asciiOnly = false) {members : List (String × Json)}
    (distinct : (Entries.keys members).Nodup)
    (all : ∀ member ∈ members, ReadsBack layout member.2) : ReadsBack layout (.object members) := by
  intro depth steps rest ends enough
  obtain ⟨steps, rfl⟩ := Nat.exists_eq_succ_of_ne_zero (show steps ≠ 0 by
    rintro rfl
    cases members <;> simp [chars] at enough)
  cases members with
  | nil => rfl
  | cons member members =>
    obtain ⟨key, value⟩ := member
    have quote : ∀ more, skipSpaces (quoted layout.asciiOnly key ++ more) =
        quoted layout.asciiOnly key ++ more := fun more =>
      List.dropWhile_cons_of_neg (by decide)
    have first : ReadsBack layout value := all _ List.mem_cons_self
    simp only [chars, List.length_cons, List.length_append, List.append_assoc, List.cons_append,
      List.nil_append] at enough ⊢
    have read : readMembers steps (quoted layout.asciiOnly key ++ [':', ' '] ++
        (chars layout (depth + 1) value ++ (memberChars layout (depth + 1) members ++
          (layout.margin depth ++ '\x7d' :: rest)))) = .ok ((key, value) :: members, rest) :=
      readMembers_chars plain first (fun member known => all member (List.mem_cons_of_mem _ known))
        (by omega)
    simp only [List.append_assoc, List.cons_append, List.nil_append] at read
    rw [readValue, skipSpaces_append isSpace_of_mem_margin, quote]
    split
    next more same => exact absurd (List.cons.inj same).1 (by decide)
    next =>
      rw [read]
      simp only [Except.map, Entries.ofPairs_of_distinct distinct]

end pieces

theorem readsBack {layout : Layout} (plain : layout.asciiOnly = false) {allowed : Binary64 → Prop}
    {json : Json} (proper : json.Proper allowed) (printable : json.isPrintable = true) :
    ReadsBack layout json := by
  induction proper with
  | null =>
    apply readsBack_scalar
    intro depth rest ends
    simp [chars, readScalar, words, List.isPrefixOf]
  | bool value =>
    apply readsBack_scalar
    intro depth rest ends
    cases value <;> simp [chars, readScalar, words, List.isPrefixOf]
  | int value =>
    apply readsBack_scalar
    intro depth rest ends
    exact readScalar_int printable ends
  | @float value _ =>
    apply readsBack_scalar
    intro depth rest ends
    exact readScalar_float value ends
  | text value =>
    apply readsBack_scalar
    intro depth rest ends
    simp only [chars, quoted, plain, List.cons_append, List.append_assoc]
    rw [readScalar, List.nil_append, readText_quoted]
    rfl
  | list _ ih =>
    have each := isPrintable_list.mp printable
    exact readsBack_list fun json member => ih json member (each json member)
  | object distinct _ ih =>
    have each := isPrintable_object.mp printable
    exact readsBack_object plain distinct fun member known => ih member known (each member known)

/-- The text of data, and blanks behind it, is read as the data. -/
theorem parse_render {layout : Layout} (plain : layout.asciiOnly = false)
    {allowed : Binary64 → Prop} {json : Json} {blanks : String} (proper : json.Proper allowed)
    (printable : json.isPrintable = true) (all : ∀ c ∈ blanks.toList, isSpace c = true) :
    parse (json.render layout ++ blanks) = .ok json := by
  have back := readsBack plain proper printable
  have ends : NoNumber blanks.toList := by
    intro c start
    have blank := all c (List.mem_of_mem_head? start)
    refine ⟨Bool.eq_false_iff.mpr fun digit => ?_, ?_, ?_, ?_⟩
    · have space : c = ' ' ∨ c = '\t' ∨ c = '\n' ∨ c = '\r' := by
        simpa [isSpace, or_assoc] using blank
      rcases space with rfl | rfl | rfl | rfl <;> simp [isAsciiDigit] at digit
    all_goals
      rintro rfl
      exact absurd blank (by decide)
  have chars : (json.render layout ++ blanks).toList = Json.chars layout 0 json ++ blanks.toList := by
    simp [render]
  have rest : skipSpaces blanks.toList = [] := by
    rw [← List.append_nil blanks.toList, skipSpaces_append all]
    rfl
  unfold parse
  simp only [chars, back.skipSpaces 0]
  rw [back 0 _ _ ends (by simp; omega)]
  simp only [bind, Except.bind, rest]
  rfl

end ToolGraph.Json
