import Mathlib.Algebra.Group.Nat.Defs
import ToolGraph.Proofs.Lists
import ToolGraph.Proofs.Text.Verbatim
import ToolGraph.Yaml.Lexeme

/-!
What a cursor reads of a YAML text. It stays inside the text; each word of letters that it reads of a
scalar stands in the text, unless the text has escapes; and it fails because the text is malformed, or
because an escape names a code that no character has.
-/
namespace ToolGraph.Yaml
open Text

/-! ### Outcomes of reading -/

/-- The number that hexadecimal digits stand for. -/
def codeOf (digits : List Char) : Nat :=
  digits.foldl (fun code c => code * 16 + (hexDigit? c).getD 0) 0

/-- An escape of eight digits stands in the text, and no character has its code. -/
def HasImpossibleEscape (source : List Char) : Prop :=
  ∃ digits : List Char, '\\' :: 'U' :: digits <:+: source ∧ digits.length = 8 ∧
    (∀ c ∈ digits, (hexDigit? c).isSome = true) ∧ 0x110000 ≤ codeOf digits

/-- Reading gives something good, unless the text is malformed or has an impossible escape. -/
inductive Yields {α : Type} (source : List Char) (good : α → Prop) : Except Error α → Prop where
  | ok {value : α} (holds : good value) : Yields source good (.ok value)
  | malformed : Yields source good (.error .malformed)
  | escape {error : Error} (impossible : HasImpossibleEscape source) : Yields source good (.error error)

namespace Yields
variable {α β : Type} {source : List Char} {good : α → Prop} {fine : β → Prop}
  {first : Except Error α} {next : α → Except Error β}

theorem bind (yields : Yields source good first)
    (later : ∀ value, good value → Yields source fine (next value)) :
    Yields source fine (first >>= next) := by
  cases yields with
  | ok holds => exact later _ holds
  | malformed => exact .malformed
  | escape impossible => exact .escape impossible

theorem imp {other : α → Prop} (yields : Yields source good first) (later : ∀ value, good value → other value) :
    Yields source other first := by
  cases yields with
  | ok holds => exact .ok (later _ holds)
  | malformed => exact .malformed
  | escape impossible => exact .escape impossible

theorem map {f : α → β} (yields : Yields source good first) (later : ∀ value, good value → fine (f value)) :
    Yields source fine (first.map f) := by
  cases yields with
  | ok holds => exact .ok (later _ holds)
  | malformed => exact .malformed
  | escape impossible => exact .escape impossible

theorem ite {branch : Prop} [Decidable branch] {other : Except Error α} (yes : Yields source good first)
    (no : Yields source good other) : Yields source good (if branch then first else other) := by
  split
  · exact yes
  · exact no

theorem guard {refused : Prop} [Decidable refused] {unit : Type} (yields : Yields source good first) :
    Yields source good (if refused then (throw .malformed : Except Error unit) >>= fun _ => first
      else first) :=
  .ite .malformed yields

theorem good_of_ok {value : α} (yields : Yields source good (.ok value)) : good value := by
  cases yields with
  | ok holds => exact holds

theorem malformed_or_escape {error : Error} (yields : Yields source good (.error error)) :
    error = .malformed ∨ HasImpossibleEscape source := by
  cases yields with
  | malformed => exact .inl rfl
  | escape impossible => exact .inr impossible

end Yields

namespace Cursor

/-! ### Places -/

/-- What is ahead is the end of the text. -/
def Inside (source : List Char) (cursor : Cursor) : Prop := cursor.rest <:+ source

section places
variable {source : List Char} {cursor after : Cursor} {c kept : Char}

theorem rest_step (cursor : Cursor) : cursor.step.rest = cursor.rest.tail := by
  unfold step
  split
  next none => rw [none, List.tail_nil]
  next c rest same =>
    rw [same, List.tail_cons]
    split <;> rfl

theorem rest_skip (cursor : Cursor) (count : Nat) : (cursor.skip count).rest = cursor.rest.drop count := by
  induction count generalizing cursor with
  | zero => rfl
  | succ count ih => rw [skip, ih, rest_step, List.drop_tail]

theorem Inside.skip (inside : Inside source cursor) (count : Nat) : Inside source (cursor.skip count) := by
  rw [Inside, rest_skip]
  exact (List.drop_suffix _ _).trans inside

theorem Inside.step (inside : Inside source cursor) : Inside source cursor.step := inside.skip 1

theorem Inside.behind (inside : Inside source cursor) (p : Char → Bool) :
    Inside source (cursor.span p).2 := inside.skip _

theorem Inside.run (inside : Inside source cursor) (p : Char → Bool) :
    (cursor.span p).1 <:+: source :=
  (List.takeWhile_prefix p).isInfix.trans inside.isInfix

theorem drop_takeWhile (p : Char → Bool) (text : List Char) :
    text.drop (text.takeWhile p).length = text.dropWhile p := by
  induction text with
  | nil => rfl
  | cons c text ih => by_cases kept : p c <;> simp [kept, ih]

/-- Behind the longest run of characters with a property stands one without it, or nothing. -/
theorem stops_span (cursor : Cursor) (p : Char → Bool) (ends : p endMark = false) :
    p (cursor.span p).2.peek = false := by
  have stops := List.head?_dropWhile_not p cursor.rest
  rw [peek, look, span, rest_skip, drop_takeWhile]
  cases behind : cursor.rest.dropWhile p with
  | nil => exact ends
  | cons c rest =>
    rw [behind] at stops
    simpa using stops

theorem peek_of_rest {rest : List Char} (ahead : cursor.rest = c :: rest) : cursor.peek = c := by
  rw [peek, look, ahead]
  rfl

theorem rest_of_peek (some : cursor.peek ≠ endMark) : ∃ rest, cursor.rest = cursor.peek :: rest := by
  cases ahead : cursor.rest with
  | nil => exact absurd (by rw [peek, look, ahead]; rfl) some
  | cons c rest => exact ⟨rest, by rw [peek_of_rest ahead]⟩

theorem Inside.mem_peek (inside : Inside source cursor) (some : cursor.peek ≠ endMark) :
    cursor.peek ∈ source := by
  obtain ⟨rest, ahead⟩ := rest_of_peek some
  exact inside.subset (ahead ▸ List.mem_cons_self)

theorem Inside.atEnd (inside : Inside source cursor) (unmarked : endMark ∉ source)
    (seen : cursor.peek = endMark) : cursor.atEnd = true := by
  cases ahead : cursor.rest with
  | nil => rw [Cursor.atEnd, ahead, List.isEmpty_nil]
  | cons c rest =>
    rw [peek_of_rest ahead] at seen
    exact absurd (inside.subset (ahead ▸ List.mem_cons_self)) (seen ▸ unmarked)

/-! ### Line breaks -/

theorem code_of_isAlpha (letter : c.isAlpha = true) : 65 ≤ c.toNat ∧ c.toNat ≤ 122 := by
  have cases : (decide ('A'.val ≤ c.val ∧ c.val ≤ 'Z'.val) ||
      (decide ('a'.val ≤ c.val) && decide (c.val ≤ 'z'.val))) = true := letter
  have codes : 'A'.val.toNat = 65 ∧ 'Z'.val.toNat = 90 ∧ 'a'.val.toNat = 97 ∧ 'z'.val.toNat = 122 := by decide
  have same : c.val.toNat = c.toNat := rfl
  simp only [Bool.or_eq_true, Bool.and_eq_true, decide_eq_true_eq, UInt32.le_iff_toNat_le] at cases
  omega

theorem isAlpha_of_isBreak (ends : isBreak c = true) : c.isAlpha = false := by
  by_contra letter
  have code := code_of_isAlpha (Bool.not_eq_false _ ▸ letter)
  simp only [isBreak, Bool.or_eq_true, beq_iff_eq] at ends
  rcases ends with (((rfl | rfl) | same) | same) | same
  · simp at code
  · simp at code
  all_goals omega

theorem lineBreak?_eq_some (found : cursor.lineBreak? = some (kept, after)) (inside : Inside source cursor) :
    kept.isAlpha = false ∧ Inside source after := by
  unfold lineBreak? at found
  simp only at found
  split at found
  next =>
    obtain ⟨rfl, rfl⟩ := Prod.mk.inj (Option.some.inj found)
    exact ⟨by decide, inside.skip 2⟩
  next =>
    split at found
    next =>
      obtain ⟨rfl, rfl⟩ := Prod.mk.inj (Option.some.inj found)
      exact ⟨by decide, inside.step⟩
    next =>
      split at found
      next same =>
        obtain ⟨rfl, rfl⟩ := Prod.mk.inj (Option.some.inj found)
        exact ⟨isAlpha_of_isBreak same, inside.step⟩
      next => cases found

theorem isBreak_of_lineBreak? (none : cursor.lineBreak? = none) : isBreak cursor.peek = false := by
  unfold lineBreak? at none
  simp only at none
  split at none
  next => cases none
  next =>
    split at none
    next => cases none
    next =>
      split at none
      next => cases none
      next plain => simpa using plain

theorem skipRestOfLine_yields (inside : Inside source cursor) :
    Yields source (Inside source) cursor.skipRestOfLine := by
  unfold skipRestOfLine
  have inside : Inside source (cursor.skipWhile (· == ' ')) := inside.behind _
  generalize cursor.skipWhile (· == ' ') = cursor at inside ⊢
  have inside : Inside source
      (if cursor.peek = '#' then cursor.skipWhile (!isBreakOrEnd ·) else cursor) := by
    split
    · exact inside.behind _
    · exact inside
  simp only
  generalize (if cursor.peek = '#' then cursor.skipWhile (!isBreakOrEnd ·) else cursor) = cursor at inside ⊢
  split
  next found => exact .ok (lineBreak?_eq_some found inside).2
  next =>
    split
    · exact .ok inside
    · exact .malformed

end places

/-! ### Names, tags and directives -/

section names
variable {source : List Char} {cursor : Cursor}

theorem name_yields (inside : Inside source cursor) :
    Yields source (fun read => Inside source read.2) cursor.name := by
  unfold name
  simp only
  split
  · exact .malformed
  · exact .ok (inside.behind _)

theorem escapedBytes_yields (steps : Nat) (inside : Inside source cursor) :
    Yields source (fun read => Inside source read.2) (cursor.escapedBytes steps) := by
  induction steps generalizing cursor with
  | zero => exact .malformed
  | succ steps ih =>
    unfold escapedBytes
    split
    · exact .ok inside
    · split
      · exact (ih (inside.skip 3)).map fun _ => id
      · exact .malformed

theorem uriChars_yields (steps : Nat) (inside : Inside source cursor) :
    Yields source (fun read => Inside source read.2) (cursor.uriChars steps) := by
  induction steps generalizing cursor with
  | zero => exact .malformed
  | succ steps ih =>
    unfold uriChars
    simp only
    split
    · exact .ok (inside.behind _)
    · refine (escapedBytes_yields _ (inside.behind _)).bind fun read inside => ?_
      split
      · exact .malformed
      · exact (ih inside).bind fun _ inside => .ok inside

theorem uri_yields (inside : Inside source cursor) :
    Yields source (fun read => Inside source read.2) cursor.uri := by
  unfold uri
  refine (uriChars_yields _ inside).bind fun read inside => ?_
  simp only
  split
  · exact .malformed
  · exact .ok inside

theorem handle_yields (inside : Inside source cursor) :
    Yields source (fun read => Inside source read.2) cursor.handle := by
  unfold handle
  simp only
  split
  · exact .malformed
  · split
    · exact .ok (inside.step.behind _)
    · split
      · exact .ok (inside.step.behind _).step
      · exact .malformed

theorem digits_yields (inside : Inside source cursor) :
    Yields source (fun read => Inside source read.2) cursor.digits := by
  unfold digits
  simp only
  split
  · exact .malformed
  · exact .ok (inside.behind _)

theorem directive_yields (inside : Inside source cursor) :
    Yields source (fun read => Inside source read.2) cursor.directive := by
  unfold directive
  refine (name_yields inside.step).bind fun read inside => ?_
  simp only
  refine .guard ?_
  split
  · refine (digits_yields (inside.behind _)).bind fun read inside => .guard ?_
    refine (digits_yields inside.step).bind fun read inside => .guard ?_
    exact (skipRestOfLine_yields inside).bind fun _ inside => .ok inside
  · split
    · refine (handle_yields (inside.behind _)).bind fun read inside => .guard ?_
      refine (uri_yields (inside.behind _)).bind fun read inside => .guard ?_
      exact (skipRestOfLine_yields inside).bind fun _ inside => .ok inside
    · exact (skipRestOfLine_yields (inside.behind _)).bind fun _ inside => .ok inside

theorem anchorName_yields (inside : Inside source cursor) :
    Yields source (fun read => Inside source read.2) cursor.anchorName := by
  unfold anchorName
  refine (name_yields inside.step).bind fun read inside => ?_
  simp only
  split
  · exact .ok inside
  · exact .malformed

theorem tag_yields (inside : Inside source cursor) :
    Yields source (fun read => Inside source read.2) cursor.tag := by
  have ends {tag : WrittenTag} {after : Cursor} (inside : Inside source after) :
      Yields source (fun read => Inside source read.2)
        (if isSpaceOrEnd after.peek = true then pure (tag, after) else throw .malformed) := by
    split
    · exact .ok inside
    · exact .malformed
  unfold tag
  simp only
  split
  · refine (uri_yields (inside.skip 2)).bind fun read inside => .guard ?_
    exact ends inside.step
  · split
    · exact ends inside.step
    · split
      · refine (handle_yields inside).bind fun read inside => ?_
        exact (uri_yields inside).bind fun read inside => ends inside
      · exact (uri_yields inside.step).bind fun read inside => ends inside

end names

/-! ### Quoted scalars -/

section quoted
variable {source : List Char} {cursor : Cursor}

theorem blankLines_yields (steps : Nat) (inside : Inside source cursor) :
    Yields source (fun read => IsJoint read.1 ∧ Inside source read.2) (cursor.blankLines steps) := by
  induction steps generalizing cursor with
  | zero => exact .malformed
  | succ steps ih =>
    unfold blankLines
    split
    · exact .malformed
    · simp only
      split
      next kept after found =>
        obtain ⟨mark, inside⟩ := lineBreak?_eq_some found (inside.behind _)
        refine (ih inside).map fun read good => ⟨?_, good.2⟩
        exact List.forall_mem_cons.mpr ⟨mark, good.1⟩
      next => exact .ok ⟨IsJoint.nil, inside.behind _⟩

theorem foldBreak_joint {kept : Char} {breaks : List Char} (mark : kept.isAlpha = false)
    (joint : IsJoint breaks) : IsJoint (foldBreak kept breaks) ∧ foldBreak kept breaks ≠ [] := by
  unfold foldBreak
  split
  · exact ⟨List.forall_mem_cons.mpr ⟨mark, joint⟩, List.cons_ne_nil _ _⟩
  · split
    · exact ⟨List.forall_mem_singleton.mpr (by decide), List.cons_ne_nil _ _⟩
    next some => exact ⟨joint, by simpa using some⟩

theorem quotedBlanks_yields (unmarked : endMark ∉ source) (inside : Inside source cursor)
    (blank : isBlankOrEnd cursor.peek = true) :
    Yields source (fun read => IsJoint read.1 ∧ read.1 ≠ [] ∧ Inside source read.2)
      cursor.quotedBlanks := by
  unfold quotedBlanks
  simp only
  split
  · exact .malformed
  next some =>
    split
    next kept after found =>
      obtain ⟨mark, inside⟩ := lineBreak?_eq_some found (inside.behind _)
      refine (blankLines_yields _ inside).map fun read good => ?_
      obtain ⟨joint, filled⟩ := foldBreak_joint mark good.1
      exact ⟨joint, filled, good.2⟩
    next none =>
      refine .ok ⟨?_, ?_, inside.behind _⟩
      · intro c member
        have kept := List.all_eq_true.mp List.all_takeWhile c member
        simp only [Bool.or_eq_true, beq_iff_eq] at kept
        rcases kept with rfl | rfl <;> decide
      · intro empty
        have same : (cursor.span (fun c => c == ' ' || c == '\t')).2 = cursor := by
          simp only [span] at empty ⊢
          rw [empty]
          rfl
        rw [same] at none some
        have unbroken := isBreak_of_lineBreak? none
        simp only [isBlankOrEnd, isSpaceOrEnd, isBreakOrEnd, unbroken, Bool.false_or, Bool.or_eq_true,
          beq_iff_eq] at blank
        by_cases mark : cursor.peek = endMark
        · exact some (inside.atEnd unmarked mark)
        · obtain ⟨rest, ahead⟩ := rest_of_peek mark
          have kept : (cursor.peek == ' ' || cursor.peek == '\t') = true := by
            simpa [mark] using blank
          simp only [span, ahead, List.takeWhile_cons, kept, if_true] at empty
          cases empty

theorem hexDigit?_lt {c : Char} {value : Nat} (found : hexDigit? c = some value) : value < 16 := by
  unfold hexDigit? at found
  simp only [Char.le_def, UInt32.le_iff_toNat_le] at found
  have same : c.val.toNat = c.toNat := rfl
  split at found
  next range =>
    obtain rfl := Option.some.inj found
    simp at range
    omega
  next =>
    split at found
    next range =>
      obtain rfl := Option.some.inj found
      simp at range
      omega
    next =>
      split at found
      next range =>
        obtain rfl := Option.some.inj found
        simp at range
        omega
      next => cases found

theorem codeOf_lt {digits : List Char} (each : ∀ c ∈ digits, (hexDigit? c).isSome = true) :
    codeOf digits < 16 ^ digits.length := by
  induction digits using List.reverseRecOn with
  | nil => decide
  | append_singleton digits c ih =>
    obtain ⟨value, found⟩ := Option.isSome_iff_exists.mp (each c (by simp))
    have small := hexDigit?_lt found
    have before := ih fun d member => each d (by simp [member])
    rw [codeOf, List.foldl_append, List.foldl_cons, List.foldl_nil, found, Option.getD_some,
      List.length_append, List.length_singleton, Nat.pow_succ]
    rw [codeOf] at before
    omega

theorem charOfCode_yields {code : Nat} (possible : 0x110000 ≤ code → HasImpossibleEscape source) :
    Yields source (fun _ => True) (charOfCode code) := by
  unfold charOfCode
  split
  · exact .ok trivial
  next large =>
    split
    · exact .escape (possible (by omega))
    · exact .escape (possible (by omega))

theorem escape_yields (inside : Inside source cursor) (mark : cursor.peek = '\\') :
    Yields source (fun read => Inside source read.2) cursor.escape := by
  unfold escape
  simp only
  split
  · exact .ok inside.step.step
  next width none given =>
    split
    next valid =>
      simp only [Bool.and_eq_true, decide_eq_true_eq, List.all_eq_true] at valid
      obtain ⟨wide, each⟩ := valid
      refine (charOfCode_yields fun large => ?_).bind fun _ _ => .ok (inside.step.step.skip width)
      have small := codeOf_lt each
      rw [wide] at small
      have large : 0x110000 ≤ codeOf (cursor.step.step.rest.take width) := large
      unfold escapeWidth? at given
      split at given
      next => cases given; omega
      next => cases given; omega
      next letter =>
        cases given
        obtain ⟨later, ahead⟩ := rest_of_peek (by rw [mark]; decide)
        have filled : cursor.step.peek ≠ endMark := by rw [letter]; decide
        obtain ⟨digits, ahead'⟩ := rest_of_peek filled
        rw [mark] at ahead
        rw [letter] at ahead'
        have all : cursor.step.step.rest = digits := by rw [rest_step, ahead', List.tail_cons]
        have next : cursor.step.rest = later := by rw [rest_step, ahead, List.tail_cons]
        rw [all] at wide each large
        refine ⟨digits.take 8, ?_, wide, each, large⟩
        have begins : '\\' :: 'U' :: digits.take 8 <+: cursor.rest := by
          rw [ahead, ← next, ahead']
          exact (List.prefix_append_right_inj ['\\', 'U']).mpr (List.take_prefix 8 digits)
        exact begins.isInfix.trans inside.isInfix
      next => cases given
    next => exact .malformed
  next =>
    split
    next kept after found =>
      exact (blankLines_yields _ (lineBreak?_eq_some found inside.step).2).imp fun _ good => good.2
    next => exact .malformed

theorem quotedRest_yields (unmarked : endMark ∉ source) (double : Bool) (steps : Nat)
    (inside : Inside source cursor) :
    Yields source (fun read => Shows source read.1 ∧ Inside source read.2)
      (cursor.quotedRest double steps) := by
  induction steps generalizing cursor with
  | zero => exact .malformed
  | succ steps ih =>
    unfold quotedRest
    simp only
    let plain : Char → Bool := fun c => !isBlankOrEnd c && c != '\'' && c != '"' && c != '\\'
    have shows : Shows source (cursor.span plain).1 := .of_part (inside.run plain)
    have stops : plain (cursor.span plain).2.peek = false := stops_span cursor plain (by decide)
    have inside : Inside source (cursor.span plain).2 := inside.behind plain
    simp only [plain] at shows stops inside
    generalize cursor.span (fun c => !isBlankOrEnd c && c != '\'' && c != '"' && c != '\\') = read
      at shows stops inside ⊢
    obtain ⟨run, cursor⟩ := read
    have mark {c : Char} {more : List Char} (other : c.isAlpha = false) (shows' : Shows source more) :
        Shows source (run ++ c :: more) := by
      rw [← List.singleton_append, ← List.append_assoc]
      exact shows.join shows' (List.forall_mem_singleton.mpr other) (List.cons_ne_nil c [])
    simp only at shows stops inside ⊢
    generalize (if double = true then '"' else '\'') = closing
    split
    · exact (ih (inside.skip 2)).bind fun read good => .ok ⟨mark (by decide) good.1, good.2⟩
    · split
      · exact .ok ⟨shows, inside.step⟩
      · split
        next escapes =>
          simp only [Bool.and_eq_true, beq_iff_eq] at escapes
          have member := inside.mem_peek (by rw [escapes.2]; decide)
          refine (escape_yields inside escapes.2).bind fun read inside => ?_
          exact (ih inside).bind fun more good => .ok ⟨.of_escape (escapes.2 ▸ member), good.2⟩
        next =>
          split
          next quote =>
            simp only [Bool.or_eq_true, beq_iff_eq, or_assoc] at quote
            have other : cursor.peek.isAlpha = false := by
              rcases quote with same | same | same <;> rw [same] <;> decide
            exact (ih inside.step).bind fun read good => .ok ⟨mark other good.1, good.2⟩
          next other =>
            have blank : isBlankOrEnd cursor.peek = true := by
              simp only [Bool.or_eq_true, beq_iff_eq, not_or] at other
              simpa [other.1.1, other.1.2, other.2] using stops
            refine (quotedBlanks_yields unmarked inside blank).bind fun blanks folded => ?_
            obtain ⟨joint, some, inside⟩ := folded
            exact (ih inside).bind fun more good => .ok ⟨shows.join good.1 joint some, good.2⟩

theorem quoted_yields (unmarked : endMark ∉ source) (inside : Inside source cursor) :
    Yields source (fun read => Shows source read.1.toList ∧ Inside source read.2) cursor.quoted := by
  refine (quotedRest_yields unmarked _ _ inside.step).map fun read good => ?_
  rw [String.toList_ofList]
  exact good

end quoted

/-! ### Block scalars -/

section block
variable {source breaks : List Char} {cursor : Cursor}

theorem blockIndicators_yields (inside : Inside source cursor) :
    Yields source (fun read => Inside source read.2.2) cursor.blockIndicators := by
  unfold blockIndicators
  cases first : chomping? cursor.peek with
  | some chomping =>
    cases second : asciiDigit? cursor.step.peek with
    | some indent =>
      simp only [second]
      exact .guard (.guard (.ok inside.step.step))
    | none =>
      simp only [second]
      exact .guard (.guard (.ok inside.step))
  | none =>
    cases second : asciiDigit? cursor.peek with
    | some indent =>
      cases third : chomping? cursor.step.peek with
      | some chomping =>
        simp only [second, third]
        exact .guard (.guard (.ok inside.step.step))
      | none =>
        simp only [second, third]
        exact .guard (.guard (.ok inside.step))
    | none =>
      simp only [second]
      exact .guard (.guard (.ok inside))

theorem leadingBlankLines_inside (widest steps : Nat) (inside : Inside source cursor) :
    IsJoint (cursor.leadingBlankLines widest steps).1 ∧
      Inside source (cursor.leadingBlankLines widest steps).2.2 := by
  induction steps generalizing cursor widest with
  | zero => exact ⟨IsJoint.nil, inside⟩
  | succ steps ih =>
    unfold leadingBlankLines
    simp only
    split
    next kept after found =>
      obtain ⟨mark, inside⟩ := lineBreak?_eq_some found (inside.behind _)
      obtain ⟨joint, inside⟩ := ih (max widest (cursor.skipWhile (· == ' ')).column) inside
      exact ⟨List.forall_mem_cons.mpr ⟨mark, joint⟩, inside⟩
    next => exact ⟨IsJoint.nil, inside.behind _⟩

theorem blockBlankLines_inside (indent steps : Nat) (inside : Inside source cursor) :
    IsJoint (cursor.blockBlankLines indent steps).1 ∧
      Inside source (cursor.blockBlankLines indent steps).2 := by
  induction steps generalizing cursor with
  | zero => exact ⟨IsJoint.nil, inside⟩
  | succ steps ih =>
    unfold blockBlankLines
    simp only
    split
    next kept after found =>
      obtain ⟨mark, inside⟩ := lineBreak?_eq_some found (inside.skip _)
      obtain ⟨joint, inside⟩ := ih inside
      exact ⟨List.forall_mem_cons.mpr ⟨mark, joint⟩, inside⟩
    next => exact ⟨IsJoint.nil, inside.skip _⟩

/-- Between two lines stands a line break or what it is folded into, but for a break that is followed by
others. -/
theorem blockJoint_joint (folded : Bool) {kept : Char} (mark : kept.isAlpha = false)
    (breaks : List Char) (first next : Char) :
    IsJoint (blockJoint folded (some kept) breaks first next) ∧
      (blockJoint folded (some kept) breaks first next = [] → breaks ≠ []) := by
  unfold blockJoint
  simp only
  split
  · split
    · exact ⟨List.forall_mem_singleton.mpr (by decide), fun none => by cases none⟩
    next some => exact ⟨IsJoint.nil, fun _ => by simpa using some⟩
  · exact ⟨List.forall_mem_singleton.mpr mark, fun none => by cases none⟩

/-- The lines of a scalar have their own words; breaks before them keep these apart from what comes
before. -/
structure Lines (source breaks : List Char) (read : List Char × Cursor) : Prop where
  shows : Shows source read.1
  apart : breaks ≠ [] → ∀ c ∈ read.1.head?, c.isAlpha = false
  inside : Inside source read.2

theorem head_of_joint {text : List Char} (joint : IsJoint breaks) (some : breaks ≠ []) :
    ∀ c ∈ (breaks ++ text).head?, c.isAlpha = false := by
  obtain ⟨d, breaks, rfl⟩ := List.exists_cons_of_ne_nil some
  intro c first
  obtain rfl : d = c := Option.some.inj first
  exact joint d List.mem_cons_self

theorem lines_last {text mark after : List Char} (joint : IsJoint breaks) (line : Shows source text)
    (marks : IsJoint mark) (blank : IsJoint after) (inside : Inside source cursor) :
    Lines source breaks (breaks ++ text ++ mark ++ after, cursor) := by
  refine ⟨((line.behind joint).append_joint marks).append_joint blank, fun some => ?_, inside⟩
  simp only [List.append_assoc]
  exact head_of_joint joint some

theorem atEnd_blockBlankLines (ended : cursor.atEnd = true) (indent steps : Nat) :
    (cursor.blockBlankLines indent steps).2.atEnd = true := by
  have here : cursor.Inside cursor.rest := List.suffix_rfl
  have short := (blockBlankLines_inside indent steps here).2.length_le
  rw [Cursor.atEnd, List.isEmpty_iff, ← List.length_eq_zero_iff] at ended ⊢
  omega

theorem blockLines_lines (unmarked : endMark ∉ source) (folded : Bool) (chomping : Chomping)
    (indent steps : Nat) (joint : IsJoint breaks) (inside : Inside source cursor) :
    Lines source breaks (cursor.blockLines folded chomping indent steps breaks) := by
  induction steps generalizing cursor breaks with
  | zero => exact ⟨IsJoint.nil.shows, by simp [blockLines], inside⟩
  | succ steps ih =>
    have line : Shows source (cursor.span (!isBreakOrEnd ·)).1 := .of_part (inside.run _)
    have stops := stops_span cursor (!isBreakOrEnd ·) (by decide)
    have inside := inside.behind (!isBreakOrEnd ·)
    unfold blockLines
    simp only at stops ⊢
    generalize cursor.peek = first
    generalize cursor.span (!isBreakOrEnd ·) = read at line stops inside ⊢
    obtain ⟨text, cursor⟩ := read
    cases found : cursor.lineBreak? with
    | some read =>
      obtain ⟨kept, after⟩ := read
      obtain ⟨mark, inside⟩ := lineBreak?_eq_some found inside
      obtain ⟨blank, inside⟩ := blockBlankLines_inside indent (after.rest.length + 1) inside
      simp only
      generalize after.blockBlankLines indent (after.rest.length + 1) = read at blank inside ⊢
      obtain ⟨after, cursor⟩ := read
      simp only at blank inside ⊢
      split
      · have later := ih blank inside
        generalize cursor.blockLines folded chomping indent steps after = read at later ⊢
        obtain ⟨more, finish⟩ := read
        have front : Shows source (breaks ++ text) := line.behind joint
        obtain ⟨between, filled⟩ := blockJoint_joint folded mark after first cursor.peek
        refine ⟨?_, ?_, later.inside⟩
        · by_cases none : blockJoint folded (some kept) after first cursor.peek = []
          · rw [none, List.append_nil]
            exact front.append later.shows (later.apart (filled none))
          · exact front.join later.shows between none
        · intro some
          simp only [List.append_assoc]
          exact head_of_joint joint some
      · refine lines_last joint line ?_ ?_ inside
        · split
          · exact IsJoint.nil
          · exact List.forall_mem_singleton.mpr mark
        · split
          · exact blank
          · exact IsJoint.nil
    | none =>
      -- Nothing but the end of the text ends a line without a break.
      have unbroken := isBreak_of_lineBreak? found
      have ended : cursor.atEnd = true := by
        refine inside.atEnd unmarked ?_
        simpa [isBreakOrEnd, unbroken] using stops
      have done := atEnd_blockBlankLines ended indent (cursor.rest.length + 1)
      obtain ⟨blank, inside⟩ := blockBlankLines_inside indent (cursor.rest.length + 1) inside
      simp only [done, Bool.not_true, Bool.and_false, Bool.false_eq_true, if_false]
      refine lines_last joint line ?_ ?_ inside
      · split <;> exact IsJoint.nil
      · split
        · exact blank
        · exact IsJoint.nil

theorem block_yields (unmarked : endMark ∉ source) (outer : Int) (inside : Inside source cursor) :
    Yields source (fun read => Shows source read.1.toList ∧ Inside source read.2) (cursor.block outer) := by
  unfold block
  refine (blockIndicators_yields inside.step).bind fun read inside => ?_
  obtain ⟨chomping, increment, after⟩ := read
  refine (skipRestOfLine_yields inside).bind fun after placed => ?_
  have ends {breaks : List Char} {indent : Nat} {after : Cursor} (joint : IsJoint breaks)
      (inside : Inside source after) :
      Yields source (fun read => Shows source read.1.toList ∧ Inside source read.2)
        (if (after.column == indent && !after.atEnd) = true then
          pure (String.ofList (after.blockLines (cursor.peek == '>') chomping indent
            (after.rest.length + 1) breaks).1, (after.blockLines (cursor.peek == '>') chomping indent
            (after.rest.length + 1) breaks).2)
        else pure (String.ofList (if chomping = .keep then breaks else []), after)) := by
    split
    · have lines := blockLines_lines unmarked (cursor.peek == '>') chomping indent
        (after.rest.length + 1) joint inside
      generalize after.blockLines (cursor.peek == '>') chomping indent (after.rest.length + 1) breaks =
        read at lines ⊢
      refine .ok ⟨?_, lines.inside⟩
      rw [String.toList_ofList]
      exact lines.shows
    · refine .ok ⟨?_, inside⟩
      rw [String.toList_ofList]
      split
      · exact joint.shows
      · exact IsJoint.nil.shows
  cases increment with
  | none =>
    obtain ⟨joint, inside⟩ := leadingBlankLines_inside 0 (after.rest.length + 1) placed
    simp only
    exact ends joint inside
  | some increment =>
    obtain ⟨joint, inside⟩ := blockBlankLines_inside ((max (outer + 1) 1).toNat + increment - 1)
      (after.rest.length + 1) placed
    simp only
    exact ends joint inside

end block

/-! ### Plain scalars -/

section plain
variable {source blanks : List Char} {cursor : Cursor}

theorem prefix_plainRun (inFlow : Bool) (text : List Char) : plainRun inFlow text <+: text := by
  induction text with
  | nil => exact List.prefix_rfl
  | cons c rest ih =>
    unfold plainRun
    simp only
    split
    · exact List.nil_prefix
    · exact List.cons_prefix_cons.mpr ⟨rfl, ih⟩

theorem plainBreaks_inside (steps : Nat) (inside : Inside source cursor) :
    (∀ breaks ∈ (cursor.plainBreaks steps).1, IsJoint breaks) ∧
      Inside source (cursor.plainBreaks steps).2 := by
  induction steps generalizing cursor with
  | zero => exact ⟨by simp [plainBreaks], inside⟩
  | succ steps ih =>
    unfold plainBreaks
    simp only
    split
    next => exact ⟨by simp [IsJoint.nil], inside.behind _⟩
    next kept after found =>
      obtain ⟨mark, inside⟩ := lineBreak?_eq_some found (inside.behind _)
      split
      · exact ⟨by simp, inside⟩
      · obtain ⟨joint, inside⟩ := ih inside
        refine ⟨?_, inside⟩
        intro breaks member
        obtain ⟨more, known, rfl⟩ := Option.map_eq_some_iff.mp member
        exact List.forall_mem_cons.mpr ⟨mark, joint more known⟩

theorem plainBlanks_inside (inside : Inside source cursor) :
    IsJoint cursor.plainBlanks.1 ∧ Inside source cursor.plainBlanks.2.2 := by
  unfold plainBlanks
  simp only
  split
  next =>
    refine ⟨?_, inside.behind _⟩
    intro c member
    have kept := List.all_eq_true.mp List.all_takeWhile c member
    rw [beq_iff_eq.mp kept]
    decide
  next kept after found =>
    obtain ⟨mark, inside⟩ := lineBreak?_eq_some found (inside.behind _)
    split
    · exact ⟨IsJoint.nil, inside⟩
    · have breaks := plainBreaks_inside (after.rest.length + 1) inside
      split
      next same => exact ⟨IsJoint.nil, by simpa [same] using breaks.2⟩
      next same =>
        rw [same] at breaks
        exact ⟨(foldBreak_joint mark (breaks.1 _ rfl)).1, breaks.2⟩

theorem plainFrom_lines (inFlow : Bool) (indent : Int) (steps : Nat) (broken : Bool)
    (joint : IsJoint blanks) (inside : Inside source cursor) :
    let read := cursor.plainFrom inFlow indent steps blanks broken
    Lines source blanks (read.1, read.2.2) := by
  induction steps generalizing cursor blanks broken with
  | zero => exact ⟨IsJoint.nil.shows, by simp [plainFrom], inside⟩
  | succ steps ih =>
    have run : plainRun inFlow cursor.rest <:+: source :=
      (prefix_plainRun inFlow cursor.rest).isInfix.trans inside.isInfix
    have behind := plainBlanks_inside (inside.skip (plainRun inFlow cursor.rest).length)
    unfold plainFrom
    simp only
    generalize (cursor.skip (plainRun inFlow cursor.rest).length).plainBlanks = read at behind ⊢
    generalize plainRun inFlow cursor.rest = text at run ⊢
    obtain ⟨after, broken', next⟩ := read
    have front : Shows source (blanks ++ text) := (Shows.of_part run).behind joint
    have stop : Lines source blanks (([] : List Char), cursor) :=
      ⟨IsJoint.nil.shows, by simp, inside⟩
    split
    · exact stop
    · split
      · exact stop
      · split
        next => exact ⟨front, fun some => head_of_joint joint some, behind.2⟩
        next goes =>
          have later := ih broken' behind.1 behind.2
          have filled : after ≠ [] := by
            simp only [Bool.or_eq_true, not_or, List.isEmpty_iff] at goes
            exact goes.1.1
          refine ⟨front.append later.shows (later.apart filled), fun some => ?_, later.inside⟩
          simp only [List.append_assoc]
          exact head_of_joint joint some

theorem plain_shows (inFlow : Bool) (outer : Int) (inside : Inside source cursor) :
    Shows source (cursor.plain inFlow outer).1.toList ∧
      Inside source (cursor.plain inFlow outer).2.2 := by
  have lines := plainFrom_lines inFlow (outer + 1) (cursor.rest.length + 1) false IsJoint.nil inside
  refine ⟨?_, lines.inside⟩
  simp only [plain, String.toList_ofList]
  exact lines.shows

end plain

end Cursor
end ToolGraph.Yaml
