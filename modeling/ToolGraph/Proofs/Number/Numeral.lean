import ToolGraph.Proofs.Number.Digits
import ToolGraph.Proofs.Path
import ToolGraph.Proofs.Text.Words

/-!
The texts that are read as whole numbers: digits of any script, in groups between single underscores,
behind an optional sign, with white space around. A text is read exactly if it has this form and no
more digits than a number may have.
-/
namespace ToolGraph.Number
open Text

/-! ### Characters -/

/-- White space that may stand around a number. -/
def isMargin (c : Char) : Bool := if c.toNat < 128 then isAsciiBlank c else isBlank c

def isDigit (c : Char) : Bool := (digitValue? c).isSome

def digitValue (c : Char) : Nat := (digitValue? c).getD 0

def asciiChar (c : Char) : Char :=
  if c.toNat < 128 then c
  else if isBlank c then ' '
  else
    match digitValue? c with
    | some value => Char.ofNat (48 + value)
    | none => c

theorem asciiForm_eq (text : List Char) : asciiForm text = text.map asciiChar := rfl

theorem isAsciiDigit_iff {c : Char} : isAsciiDigit c = true ↔ 48 ≤ c.toNat ∧ c.toNat ≤ 57 := by
  simp only [isAsciiDigit, Bool.and_eq_true, decide_eq_true_eq, Char.le_def, UInt32.le_iff_toNat_le]
  rfl

theorem exists_zeroDigit {c : Char} {value : Nat} (digit : digitValue? c = some value) :
    ∃ first ∈ zeroDigits, first + value = c.toNat ∧ value ≤ 9 := by
  obtain ⟨first, found, rfl⟩ := Option.map_eq_some_iff.mp digit
  have within := List.find?_some found
  simp only [Bool.and_eq_true, decide_eq_true_eq] at within
  exact ⟨first, List.mem_of_find?_eq_some found, by omega, by omega⟩

theorem digitValue?_ascii {c : Char} (ascii : c.toNat < 128) :
    digitValue? c = if isAsciiDigit c then some (c.toNat - 48) else none := by
  split
  next digit =>
    obtain ⟨low, high⟩ := isAsciiDigit_iff.mp digit
    rw [digitValue?, zeroDigits, List.find?_cons_of_pos (by simp [low, high]), Option.map_some]
  next other =>
    cases found : digitValue? c with
    | none => rfl
    | some value =>
      have starts : ∀ first ∈ zeroDigits, first = 48 ∨ 128 ≤ first := by decide
      obtain ⟨first, member, sum, small⟩ := exists_zeroDigit found
      rcases starts first member with rfl | high
      · exact absurd (isAsciiDigit_iff.mpr (by omega)) other
      · omega

theorem isBlank_of_digit {c : Char} {value : Nat} (digit : digitValue? c = some value) :
    isBlank c = false := by
  have apart : ∀ first ∈ zeroDigits, ∀ range ∈ blankRanges, range.2 < first ∨ first + 9 < range.1 := by
    decide
  obtain ⟨first, member, sum, small⟩ := exists_zeroDigit digit
  refine List.any_eq_false.mpr fun range known => ?_
  have outside := apart first member range known
  simp only [Bool.and_eq_true, decide_eq_true_eq]
  omega

/-- What the characters are read as: those beyond ASCII are white space, digits or neither. -/
inductive ReadAs (c : Char) : Char → Prop where
  | ascii (low : c.toNat < 128) : ReadAs c c
  | margin (high : 128 ≤ c.toNat) (blank : isBlank c = true) (other : digitValue? c = none) :
      ReadAs c ' '
  | digit {value : Nat} {ascii : Char} (high : 128 ≤ c.toNat) (written : isBlank c = false)
      (digit : digitValue? c = some value) (small : value ≤ 9) (same : ascii.toNat = 48 + value) :
      ReadAs c ascii
  | other (high : 128 ≤ c.toNat) (written : isBlank c = false) (other : digitValue? c = none) :
      ReadAs c c

theorem readAs_asciiChar (c : Char) : ReadAs c (asciiChar c) := by
  have codes : ∀ value ≤ 9, (Char.ofNat (48 + value)).toNat = 48 + value := by decide
  unfold asciiChar
  split
  next low => exact .ascii low
  next high =>
    have high : 128 ≤ c.toNat := by omega
    cases digit : digitValue? c with
    | some value =>
      obtain ⟨-, -, -, small⟩ := exists_zeroDigit digit
      have written := isBlank_of_digit digit
      rw [if_neg (by simp [written])]
      exact .digit high written digit small (codes value small)
    | none =>
      split
      next blank => exact .margin high blank digit
      next written => exact .other high (Bool.eq_false_iff.mpr written) digit

theorem isAsciiBlank_of_gt {c : Char} (high : 32 < c.toNat) : isAsciiBlank c = false := by
  have other : c ≠ ' ' := by
    rintro rfl
    exact absurd high (by decide)
  have later : ¬ c.toNat ≤ 13 := by omega
  simp [isAsciiBlank, other, later]

theorem isAsciiBlank_asciiChar (c : Char) : isAsciiBlank (asciiChar c) = isMargin c := by
  have read := readAs_asciiChar c
  generalize asciiChar c = ascii at read
  cases read with
  | ascii low => exact (if_pos low).symm
  | margin high blank =>
    rw [isMargin, if_neg (by omega), blank]
    rfl
  | digit high written _ small same =>
    rw [isMargin, if_neg (by omega), written]
    exact isAsciiBlank_of_gt (by omega)
  | other high written =>
    rw [isMargin, if_neg (by omega), written]
    exact isAsciiBlank_of_gt (by omega)

theorem isAsciiDigit_asciiChar (c : Char) : isAsciiDigit (asciiChar c) = isDigit c := by
  have read := readAs_asciiChar c
  generalize asciiChar c = ascii at read
  cases read with
  | ascii low => rw [isDigit, digitValue?_ascii low]; split <;> simp [*]
  | margin high blank other => rw [isDigit, other]; rfl
  | digit high written digit small same =>
    rw [isDigit, digit]
    exact isAsciiDigit_iff.mpr (by omega)
  | other high written other =>
    rw [isDigit, other]
    exact Bool.eq_false_iff.mpr fun digit => by have := isAsciiDigit_iff.mp digit; omega

theorem toNat_asciiChar {c : Char} (digit : isDigit c = true) :
    (asciiChar c).toNat - 48 = digitValue c := by
  have read := readAs_asciiChar c
  generalize asciiChar c = ascii at read
  cases read with
  | ascii low =>
    rw [isDigit, digitValue?_ascii low] at digit
    rw [digitValue, digitValue?_ascii low]
    split at digit
    next known => rw [if_pos known, Option.getD_some]
    next => cases digit
  | digit _ _ known _ same => rw [digitValue, known, same, Option.getD_some, Nat.add_sub_cancel_left]
  | margin _ _ other => simp [isDigit, other] at digit
  | other _ _ other => simp [isDigit, other] at digit

theorem asciiChar_eq_iff {mark : Char} (low : mark.toNat < 128) (solid : mark ≠ ' ')
    (noDigit : isAsciiDigit mark = false) (c : Char) : asciiChar c = mark ↔ c = mark := by
  have read := readAs_asciiChar c
  generalize asciiChar c = ascii at read
  cases read with
  | ascii => rfl
  | margin high => exact iff_of_false (Ne.symm solid) (by rintro rfl; omega)
  | digit high _ _ small same =>
    refine iff_of_false ?_ (by rintro rfl; omega)
    rintro rfl
    exact absurd (isAsciiDigit_iff.mpr ⟨by omega, by omega⟩) (Bool.eq_false_iff.mp noDigit)
  | other => rfl

/-! ### Groups of digits -/

/-- The pieces between underscores are groups of digits. Behind a digit (`after`) the first one may be
empty. -/
def Grouped (after : Bool) : List (List Char) → Prop
  | [] => False
  | first :: groups => AllDigits first ∧ (after = true ∨ first ≠ []) ∧
      ∀ group ∈ groups, group ≠ [] ∧ AllDigits group

theorem grouped_false {groups : List (List Char)} (some : groups ≠ []) :
    Grouped false groups ↔ ∀ group ∈ groups, group ≠ [] ∧ AllDigits group := by
  obtain ⟨first, groups, rfl⟩ := List.exists_cons_of_ne_nil some
  simp only [Grouped, Bool.false_eq_true, false_or, List.forall_mem_cons]
  tauto

section groups
variable {after : Bool} {c : Char} {rest digits first : List Char} {groups : List (List Char)}

theorem allDigits_cons : AllDigits (c :: rest) ↔ isAsciiDigit c = true ∧ AllDigits rest :=
  List.forall_mem_cons

theorem grouped_cons_digit (digit : isAsciiDigit c = true) :
    Grouped after ((c :: first) :: groups) ↔ Grouped true (first :: groups) := by
  simp [Grouped, allDigits_cons, digit]

theorem grouped_cons_nil :
    Grouped true ([] :: groups) ↔ ∀ group ∈ groups, group ≠ [] ∧ AllDigits group := by
  simp [Grouped, AllDigits]

theorem head?_of_splitAt (split : splitAt '_' rest = first :: groups) (some : first ≠ [])
    (all : AllDigits first) : rest.head?.any isAsciiDigit = true := by
  cases rest with
  | nil => exact absurd (List.cons.inj split).1.symm some
  | cons d rest =>
    obtain ⟨others, more, split'⟩ := List.exists_cons_of_ne_nil (splitAt_ne_nil '_' rest)
    rw [splitAt, split'] at split
    split at split
    · exact absurd (List.cons.inj split).1.symm some
    · obtain ⟨rfl, -⟩ := List.cons.inj split
      exact (allDigits_cons.mp all).1

theorem ne_nil_of_cutDigits {tail : List Char} (next : rest.head?.any isAsciiDigit = true)
    (read : cutDigits after rest = (digits, tail)) : digits ≠ [] := by
  cases rest with
  | nil => cases next
  | cons d rest =>
    have digit : isAsciiDigit d = true := next
    simp only [cutDigits, digit, ↓reduceIte, Prod.mk.injEq] at read
    exact read.1 ▸ List.cons_ne_nil _ _

theorem cutDigits_of_allDigits (all : AllDigits digits) : cutDigits after digits = (digits, []) := by
  induction digits generalizing after with
  | nil => rfl
  | cons c rest ih =>
    obtain ⟨digit, all⟩ := allDigits_cons.mp all
    simp only [cutDigits, digit, ↓reduceIte, ih all]

theorem cutDigits_eq_iff {text : List Char} :
    cutDigits after text = (digits, []) ∧ (after = true ∨ digits ≠ []) ↔
      Grouped after (splitAt '_' text) ∧ digits = text.filter (· != '_') := by
  induction text generalizing after digits with
  | nil =>
    have none : Grouped after [[]] ↔ after = true := by simp [Grouped, AllDigits]
    rw [cutDigits, splitAt, none, List.filter_nil, Prod.mk.injEq, eq_self, and_true]
    constructor
    · rintro ⟨rfl, known⟩
      exact ⟨known.resolve_right fun some => some rfl, rfl⟩
    · rintro ⟨known, rfl⟩
      exact ⟨rfl, .inl known⟩
  | cons c rest ih =>
    -- The reader goes on at a digit and at an underscore between two digits, and stops elsewhere. The
    -- first piece of the rest says whether a digit follows.
    obtain ⟨first, groups, split⟩ := List.exists_cons_of_ne_nil (splitAt_ne_nil '_' rest)
    rw [split] at ih
    by_cases digit : isAsciiDigit c = true
    · have other : c ≠ '_' := by rintro rfl; cases digit
      rw [splitAt, if_neg other, split, grouped_cons_digit digit,
        List.filter_cons_of_pos (by simpa using other)]
      simp only [cutDigits, digit, ↓reduceIte, Prod.mk.injEq]
      constructor
      · rintro ⟨⟨rfl, none⟩, -⟩
        obtain ⟨known, same⟩ := ih.mp ⟨Prod.ext rfl none, .inl rfl⟩
        exact ⟨known, congrArg _ same⟩
      · rintro ⟨known, rfl⟩
        have read := (ih.mpr ⟨known, rfl⟩).1
        exact ⟨by simp [read], .inr (List.cons_ne_nil _ _)⟩
    · by_cases between : c = '_' ∧ after = true ∧ rest.head?.any isAsciiDigit = true
      · obtain ⟨rfl, rfl, next⟩ := between
        rw [splitAt, if_pos rfl, split, grouped_cons_nil, ← grouped_false (List.cons_ne_nil _ _),
          List.filter_cons_of_neg (by simp)]
        simp only [cutDigits, digit, next, and_self, ↓reduceIte, true_or, and_true, Bool.false_eq_true]
        constructor
        · intro read
          exact ih.mp ⟨read, .inr (ne_nil_of_cutDigits next read)⟩
        · exact fun known => (ih.mpr known).1
      · have stops : cutDigits after (c :: rest) = ([], c :: rest) := by
          simp only [cutDigits, digit, between, ↓reduceIte, Bool.false_eq_true]
        rw [stops]
        refine iff_of_false (fun read => List.cons_ne_nil _ _ (Prod.mk.inj read.1).2) ?_
        rintro ⟨known, -⟩
        rw [splitAt] at known
        split at known
        next same =>
          rw [split] at known
          obtain ⟨-, behind, each⟩ := known
          obtain ⟨some, all⟩ := each first List.mem_cons_self
          exact between
            ⟨same, behind.resolve_right fun none => none rfl, head?_of_splitAt split some all⟩
        next =>
          rw [split] at known
          exact digit (allDigits_cons.mp known.1).1

end groups

/-! ### Numerals -/

inductive Sign where
  | none
  | plus
  | minus
  deriving DecidableEq

def Sign.text : Sign → List Char
  | .none => []
  | .plus => ['+']
  | .minus => ['-']

/-- A whole number as it is written. -/
structure Numeral where
  before : List Char
  sign : Sign
  body : List Char
  after : List Char

namespace Numeral

def text (numeral : Numeral) : List Char :=
  numeral.before ++ (numeral.sign.text ++ numeral.body) ++ numeral.after

def digits (numeral : Numeral) : List Char := numeral.body.filter (· != '_')

def number (numeral : Numeral) : Int :=
  let magnitude : Nat := numeral.digits.foldl (fun value c => value * 10 + digitValue c) 0
  if numeral.sign = .minus then -magnitude else magnitude

structure IsProper (numeral : Numeral) : Prop where
  before : ∀ c ∈ numeral.before, isMargin c = true
  after : ∀ c ∈ numeral.after, isMargin c = true
  groups : ∀ group ∈ splitAt '_' numeral.body, group ≠ [] ∧ ∀ c ∈ group, isDigit c = true
  short : numeral.digits.length ≤ maxDigits

end Numeral

def IsNumeral (text : List Char) (number : Int) : Prop :=
  ∃ numeral : Numeral, numeral.IsProper ∧ numeral.text = text ∧ numeral.number = number

theorem exists_sign (text : List Char) :
    ∃ sign : Sign, text = sign.text ++ (cutSign text).2 ∧ (cutSign text).1 = decide (sign = .minus) := by
  unfold cutSign
  split
  · exact ⟨.minus, rfl, rfl⟩
  · exact ⟨.plus, rfl, rfl⟩
  · exact ⟨.none, rfl, rfl⟩

theorem cutSign_append (sign : Sign) {body : List Char} (digit : body.head?.any isAsciiDigit = true) :
    cutSign (sign.text ++ body) = (decide (sign = .minus), body) := by
  cases sign with
  | none =>
    change cutSign body = (false, body)
    unfold cutSign
    split
    · cases digit
    · cases digit
    · rfl
  | plus => rfl
  | minus => rfl

theorem asciiChar_plus (c : Char) : asciiChar c = '+' ↔ c = '+' :=
  asciiChar_eq_iff (by decide) (by decide) (by decide) c

theorem asciiChar_minus (c : Char) : asciiChar c = '-' ↔ c = '-' :=
  asciiChar_eq_iff (by decide) (by decide) (by decide) c

theorem asciiChar_underscore (c : Char) : asciiChar c = '_' ↔ c = '_' :=
  asciiChar_eq_iff (by decide) (by decide) (by decide) c

theorem map_eq_text {written : List Char} {sign : Sign} :
    written.map asciiChar = sign.text ↔ written = sign.text := by
  cases sign with
  | none => exact List.map_eq_nil_iff
  | plus => simp [Sign.text, List.map_eq_singleton_iff, asciiChar_plus]
  | minus => simp [Sign.text, List.map_eq_singleton_iff, asciiChar_minus]

theorem digitsValue_map {digits : List Char} (each : ∀ c ∈ digits, isDigit c = true) :
    digitsValue (digits.map asciiChar) = digits.foldl (fun value c => value * 10 + digitValue c) 0 := by
  rw [digitsValue, List.foldl_map]
  exact List.foldl_ext _ _ _ fun value c member => by rw [toNat_asciiChar (each c member)]

theorem grouped_map {body : List Char} : Grouped false (splitAt '_' (body.map asciiChar)) ↔
    ∀ group ∈ splitAt '_' body, group ≠ [] ∧ ∀ c ∈ group, isDigit c = true := by
  rw [grouped_false (splitAt_ne_nil _ _), splitAt_map asciiChar_underscore, List.forall_mem_map]
  simp only [AllDigits, List.forall_mem_map, isAsciiDigit_asciiChar, ne_eq, List.map_eq_nil_iff]

namespace Numeral
variable {numeral : Numeral}

theorem filter_body (numeral : Numeral) :
    (numeral.body.map asciiChar).filter (· != '_') = numeral.digits.map asciiChar := by
  rw [List.filter_map]
  refine congrArg _ (List.filter_congr fun c _ => ?_)
  simp [bne, asciiChar_underscore]

namespace IsProper
variable (proper : numeral.IsProper)
include proper

theorem grouped : Grouped false (splitAt '_' (numeral.body.map asciiChar)) :=
  grouped_map.mpr proper.groups

theorem isDigit_of_mem {c : Char} (member : c ∈ numeral.body) : c = '_' ∨ isDigit c = true := by
  rw [← joinWith_splitAt '_' numeral.body] at member
  rcases mem_joinWith member with between | ⟨group, known, own⟩
  · exact .inl between
  · exact .inr ((proper.groups group known).2 c own)

theorem number_eq : numeral.number =
    if decide (numeral.sign = .minus) then -(digitsValue (numeral.digits.map asciiChar) : Int)
    else digitsValue (numeral.digits.map asciiChar) := by
  have each : ∀ c ∈ numeral.digits, isDigit c = true := by
    intro c member
    obtain ⟨inside, other⟩ := List.mem_filter.mp member
    exact (proper.isDigit_of_mem inside).resolve_left (by simpa using other)
  rw [digitsValue_map each]
  simp [number]

theorem head_body : (numeral.body.map asciiChar).head?.any isAsciiDigit = true := by
  obtain ⟨first, groups, split⟩ :=
    List.exists_cons_of_ne_nil (splitAt_ne_nil '_' (numeral.body.map asciiChar))
  have grouped := proper.grouped
  rw [split] at grouped
  obtain ⟨all, some, -⟩ := grouped
  exact head?_of_splitAt split (some.resolve_left (by simp)) all

theorem trimWhile_text : trimWhile isAsciiBlank (asciiForm numeral.text) =
    numeral.sign.text ++ numeral.body.map asciiChar := by
  have before : ∀ c ∈ numeral.before.map asciiChar, isAsciiBlank c = true :=
    List.forall_mem_map.mpr fun c member => isAsciiBlank_asciiChar c ▸ proper.before c member
  have after : ∀ c ∈ numeral.after.map asciiChar, isAsciiBlank c = true :=
    List.forall_mem_map.mpr fun c member => isAsciiBlank_asciiChar c ▸ proper.after c member
  have solid : ∀ c ∈ numeral.sign.text ++ numeral.body.map asciiChar, isAsciiBlank c = false := by
    refine List.forall_mem_append.mpr ⟨?_, List.forall_mem_map.mpr fun c member => ?_⟩
    · cases numeral.sign <;> simp [Sign.text, isAsciiBlank]
    · rcases proper.isDigit_of_mem member with rfl | digit
      · rfl
      · rw [← isAsciiDigit_asciiChar] at digit
        have known := isAsciiDigit_iff.mp digit
        exact isAsciiBlank_of_gt (by omega)
  rw [asciiForm_eq, text, List.map_append, List.map_append, List.map_append, map_eq_text.mpr rfl,
    trimWhile_padded before after]
  exact trimWhile_of_free solid

end IsProper
end Numeral

theorem readInt?_eq_some_iff {text : List Char} {number : Int} : readInt? text = some number ↔
    ∃ digits, cutDigits false (cutSign (trimWhile isAsciiBlank (asciiForm text))).2 = (digits, []) ∧
      digits ≠ [] ∧ digits.length ≤ maxDigits ∧
      (if (cutSign (trimWhile isAsciiBlank (asciiForm text))).1 then -(digitsValue digits : Int)
        else digitsValue digits) = number := by
  simp only [readInt?]
  generalize cutSign (trimWhile isAsciiBlank (asciiForm text)) = signed
  obtain ⟨negative, body⟩ := signed
  cases cut : cutDigits false body with
  | mk digits rest =>
    cases rest with
    | nil =>
      by_cases allowed : digits ≠ [] ∧ digits.length ≤ maxDigits
      · simp [allowed.1, allowed.2, Nat.not_lt.mpr allowed.2]
      · have refused : (digits.isEmpty || decide (maxDigits < digits.length)) = true := by
          rw [not_and_or, not_not, Nat.not_le] at allowed
          simpa using allowed
        simp [refused]
        tauto
    | cons c rest => simp

theorem readInt?_eq_some {text : List Char} {number : Int} :
    readInt? text = some number ↔ IsNumeral text number := by
  rw [readInt?_eq_some_iff]
  constructor
  · rintro ⟨digits, cut, some, short, rfl⟩
    obtain ⟨front, back, drops, drops', whole⟩ := exists_trimWhile isAsciiBlank (asciiForm text)
    obtain ⟨sign, core, negative⟩ := exists_sign (trimWhile isAsciiBlank (asciiForm text))
    rw [negative]
    generalize (cutSign (trimWhile isAsciiBlank (asciiForm text))).2 = rest at cut core
    rw [core, asciiForm_eq] at whole
    -- The parts were cut from the ASCII form; each is the form of a part of the text.
    obtain ⟨inner, after, rfl, padded, rfl⟩ := List.map_eq_append_iff.mp whole
    obtain ⟨before, middle, rfl, rfl, signed⟩ := List.map_eq_append_iff.mp padded
    obtain ⟨written, body, rfl, same, rfl⟩ := List.map_eq_append_iff.mp signed
    obtain rfl := map_eq_text.mp same
    obtain ⟨grouped, rfl⟩ := cutDigits_eq_iff.mp ⟨cut, .inr some⟩
    let numeral : Numeral := ⟨before, sign, body, after⟩
    have proper : numeral.IsProper := by
      refine ⟨fun c member => ?_, fun c member => ?_, grouped_map.mp grouped, ?_⟩
      · exact isAsciiBlank_asciiChar c ▸ drops _ (List.mem_map_of_mem member)
      · exact isAsciiBlank_asciiChar c ▸ drops' _ (List.mem_map_of_mem member)
      · rwa [numeral.filter_body, List.length_map] at short
    refine ⟨numeral, proper, rfl, ?_⟩
    rw [proper.number_eq, ← numeral.filter_body]
  · rintro ⟨numeral, proper, rfl, rfl⟩
    obtain ⟨cut, some⟩ := cutDigits_eq_iff.mpr ⟨proper.grouped, rfl⟩
    rw [proper.trimWhile_text, cutSign_append _ proper.head_body]
    refine ⟨_, cut, some.resolve_left (by simp), ?_, ?_⟩
    · rw [numeral.filter_body, List.length_map]
      exact proper.short
    · rw [proper.number_eq, numeral.filter_body]

example : readInt? " -1_0\n".toList = some (-10) := by decide

theorem readInt?_digits {text : List Char} (all : AllDigits text) (some : text ≠ []) {number : Int} :
    readInt? text = Option.some number ↔ text.length ≤ maxDigits ∧ number = digitsValue text := by
  have low : ∀ c ∈ text, 48 ≤ c.toNat ∧ c.toNat ≤ 57 :=
    fun c member => isAsciiDigit_iff.mp (all c member)
  have form : asciiForm text = text := by
    rw [asciiForm_eq]
    refine (List.map_congr_left fun c member => ?_).trans (List.map_id text)
    have := low c member
    exact if_pos (by omega)
  have solid : ∀ c ∈ text, isAsciiBlank c = false := fun c member =>
    isAsciiBlank_of_gt (by have := low c member; omega)
  have signed : cutSign text = (false, text) := by
    obtain ⟨c, rest, rfl⟩ := List.exists_cons_of_ne_nil some
    exact cutSign_append .none (all c List.mem_cons_self)
  rw [readInt?_eq_some_iff, form, trimWhile_of_free solid, signed, cutDigits_of_allDigits all]
  simp only [Prod.mk.injEq, and_true, exists_eq_left', Bool.false_eq_true, ↓reduceIte]
  exact ⟨fun ⟨_, short, same⟩ => ⟨short, same.symm⟩, fun ⟨short, same⟩ => ⟨some, short, same.symm⟩⟩

end ToolGraph.Number
