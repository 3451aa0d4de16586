import Mathlib.Algebra.Group.Nat.Defs
import Mathlib.Data.List.TakeWhile
import ToolGraph.Json.Parser

/-!
The decimal digits of a natural number. They are what a reader cuts off a text up to the first
character that is none, and their value is the number.
-/
namespace ToolGraph.Number
open Text

def AllDigits (text : List Char) : Prop := ∀ c ∈ text, isAsciiDigit c = true

def NoDigit (text : List Char) : Prop := ∀ c ∈ text.head?, isAsciiDigit c = false

namespace AllDigits
variable {digits more rest : List Char}

theorem append (first : AllDigits digits) (second : AllDigits more) : AllDigits (digits ++ more) :=
  fun c member => (List.mem_append.mp member).elim (first c) (second c)

theorem take (all : AllDigits digits) (count : Nat) : AllDigits (digits.take count) :=
  fun c member => all c (List.mem_of_mem_take member)

theorem drop (all : AllDigits digits) (count : Nat) : AllDigits (digits.drop count) :=
  fun c member => all c (List.mem_of_mem_drop member)

theorem zeros (count : Nat) : AllDigits (List.replicate count '0') := by
  intro c member
  rw [List.eq_of_mem_replicate member]
  rfl

theorem takeWhile (all : AllDigits digits) (ends : NoDigit rest) :
    (digits ++ rest).takeWhile isAsciiDigit = digits := by
  rw [List.takeWhile_append_of_pos all]
  cases rest with
  | nil => simp
  | cons c rest =>
    rw [List.takeWhile_cons_of_neg (by simp [ends c rfl]), List.append_nil]

theorem dropWhile (all : AllDigits digits) (ends : NoDigit rest) :
    (digits ++ rest).dropWhile isAsciiDigit = rest := by
  rw [List.dropWhile_append_of_pos all]
  cases rest with
  | nil => rfl
  | cons c rest => exact List.dropWhile_cons_of_neg (by simp [ends c rfl])

end AllDigits

theorem allDigits_toDigits (value : Nat) : AllDigits (Nat.toDigits 10 value) :=
  fun _ member => Nat.isDigit_of_mem_toDigits (by decide) (by decide) member

/-- Only zero is written with a zero at the start. -/
theorem head?_toDigits {value : Nat} (nonzero : value ≠ 0) :
    (Nat.toDigits 10 value).head? ≠ some '0' := by
  induction value using Nat.strongRecOn with
  | ind value ih =>
    rw [Nat.toDigits_eq_if (by decide)]
    split
    next => simpa using nonzero
    next large =>
      have start := ih (value / 10) (by omega) (by omega)
      obtain ⟨c, more, same⟩ := List.exists_cons_of_ne_nil (@Nat.toDigits_ne_nil (value / 10) 10)
      rw [same] at start ⊢
      exact start

/-! ### Values -/

theorem digitsValue_eq (digits : List Char) : digitsValue digits = Nat.ofDigitChars 10 digits 0 := by
  unfold digitsValue Nat.ofDigitChars
  congr 1
  funext value c
  rw [Nat.mul_comm]
  rfl

theorem digitsValue_append (first second : List Char) :
    digitsValue (first ++ second) = 10 ^ second.length * digitsValue first + digitsValue second := by
  rw [digitsValue_eq, Nat.ofDigitChars_append, Nat.ofDigitChars_eq_ofDigitChars_zero,
    ← digitsValue_eq, ← digitsValue_eq]

@[simp] theorem digitsValue_zeros (count : Nat) : digitsValue (List.replicate count '0') = 0 := by
  rw [digitsValue_eq, Nat.ofDigitChars_replicate_zero, Nat.mul_zero]

@[simp] theorem digitsValue_toDigits (value : Nat) : digitsValue (Nat.toDigits 10 value) = value := by
  rw [digitsValue_eq, Nat.ofDigitChars_ten_toDigits]

end ToolGraph.Number

namespace ToolGraph.Json
open Text Number

/-- The digits before a point: a zero alone, or digits that start with another one. -/
structure IsWhole (digits : List Char) : Prop where
  all : AllDigits digits
  start : digits = ['0'] ∨ digits ≠ [] ∧ digits.head? ≠ some '0'

theorem IsWhole.ne_nil {digits : List Char} (whole : IsWhole digits) : digits ≠ [] := by
  rcases whole.start with rfl | ⟨some, -⟩
  · exact List.cons_ne_nil _ _
  · exact some

theorem isWhole_toDigits (value : Nat) : IsWhole (Nat.toDigits 10 value) where
  all := allDigits_toDigits value
  start := by
    by_cases zero : value = 0
    · exact .inl (zero ▸ Nat.toDigits_zero 10)
    · exact .inr ⟨Nat.toDigits_ne_nil, head?_toDigits zero⟩

theorem cutWhole_append {digits rest : List Char} (whole : IsWhole digits) (ends : NoDigit rest) :
    cutWhole (digits ++ rest) = (digits, rest) := by
  rcases whole.start with rfl | ⟨some, start⟩
  · rfl
  · obtain ⟨c, more, rfl⟩ := List.exists_cons_of_ne_nil some
    have other : c ≠ '0' := by simpa using start
    unfold cutWhole
    split
    next zero => exact absurd (List.cons.inj zero).1 other
    next => rw [whole.all.takeWhile ends, whole.all.dropWhile ends]

end ToolGraph.Json
