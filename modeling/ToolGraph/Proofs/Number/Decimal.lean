import Mathlib.Tactic.FieldSimp
import Mathlib.Tactic.Positivity
import ToolGraph.Proofs.Number.Rounding

/-!
Decimals that are read as a magnitude: those between its halfway points. In which digits and with which
exponent such a decimal is written makes no difference.
-/
namespace ToolGraph

def Decimal.value (decimal : Decimal) : ℚ := decimal.digits * 10 ^ decimal.exponent

namespace Magnitude
variable {magnitude : Magnitude} {numerator denominator : Nat}

/-- A value lies between the halfway points of a magnitude. -/
structure Covers (magnitude : Magnitude) (value : ℚ) : Prop where
  low : (4 * magnitude.mantissa - magnitude.stepDown) * 2 ^ magnitude.scale ≤
    4 * (value * unitsPerOne)
  high : 4 * (value * unitsPerOne) ≤ (4 * magnitude.mantissa + 2) * 2 ^ magnitude.scale
  strict : magnitude.mantissa % 2 = 1 →
    (4 * magnitude.mantissa - magnitude.stepDown) * 2 ^ magnitude.scale < 4 * (value * unitsPerOne) ∧
      4 * (value * unitsPerOne) < (4 * magnitude.mantissa + 2) * 2 ^ magnitude.scale

theorem compare_of_scaled {a b x y d : ℚ} (positive : 0 < d) (scaled : b - a = (y - x) * d) :
    (x ≤ y ↔ a ≤ b) ∧ (x < y ↔ a < b) := by
  rw [← sub_nonneg (a := y), ← sub_nonneg (a := b), ← sub_pos (a := y), ← sub_pos (a := b), scaled]
  exact ⟨(mul_nonneg_iff_of_pos_right positive).symm, (mul_pos_iff_of_pos_right positive).symm⟩

theorem covers_iff_near {value : ℚ} (positive : 0 < denominator)
    (same : value * unitsPerOne * denominator = numerator) :
    magnitude.Covers value ↔ magnitude.Near numerator (denominator <<< magnitude.scale) := by
  have above : (0 : ℚ) < denominator := by exact_mod_cast positive
  have low : ((4 * numerator + magnitude.stepDown * (denominator <<< magnitude.scale) : Nat) : ℚ) -
        ((4 * (magnitude.mantissa * (denominator <<< magnitude.scale)) : Nat) : ℚ) =
      (4 * (value * unitsPerOne) -
        (4 * magnitude.mantissa - magnitude.stepDown) * 2 ^ magnitude.scale) * denominator := by
    rw [Nat.shiftLeft_eq]
    push_cast
    rw [← same]
    ring
  have high : ((4 * (magnitude.mantissa * (denominator <<< magnitude.scale)) +
          2 * (denominator <<< magnitude.scale) : Nat) : ℚ) - ((4 * numerator : Nat) : ℚ) =
      ((4 * magnitude.mantissa + 2) * 2 ^ magnitude.scale - 4 * (value * unitsPerOne)) *
        denominator := by
    rw [Nat.shiftLeft_eq]
    push_cast
    rw [← same]
    ring
  obtain ⟨lowLe, lowLt⟩ := compare_of_scaled above low
  obtain ⟨highLe, highLt⟩ := compare_of_scaled above high
  rw [Nat.cast_le] at lowLe highLe
  rw [Nat.cast_lt] at lowLt highLt
  constructor
  · rintro ⟨one, two, strict⟩
    exact ⟨lowLe.mp one, highLe.mp two, fun odd => (strict odd).imp lowLt.mp highLt.mp⟩
  · rintro ⟨one, two, strict⟩
    exact ⟨lowLe.mpr one, highLe.mpr two, fun odd => (strict odd).imp lowLt.mpr highLt.mpr⟩

theorem powerOfTen_spec (exponent : Int) :
    0 < (powerOfTen exponent).1 ∧ 0 < (powerOfTen exponent).2 ∧
      ((powerOfTen exponent).1 : ℚ) = 10 ^ exponent * (powerOfTen exponent).2 := by
  have ten : ∀ power : Nat, 0 < tenTo power := fun power => Nat.pow_pos (by decide)
  have cast : ∀ power : Nat, (tenTo power : ℚ) = 10 ^ power := fun power => by
    simp [tenTo, Nat.pow_eq]
  unfold powerOfTen
  split
  next whole =>
    refine ⟨ten _, Nat.one_pos, ?_⟩
    obtain ⟨power, rfl⟩ := Int.eq_ofNat_of_zero_le whole
    simp [cast]
  next fraction =>
    refine ⟨Nat.one_pos, ten _, ?_⟩
    obtain ⟨power, same⟩ := Int.eq_ofNat_of_zero_le (show 0 ≤ -exponent by omega)
    obtain rfl : exponent = -(power : Int) := by omega
    simp [cast]

end Magnitude

namespace Magnitude
variable {magnitude : Magnitude} {digits power : Nat}

theorem two_pow_le_tenTo (power : Nat) : 2 ^ (3 * power) ≤ tenTo power := by
  rw [Nat.pow_mul]
  exact Nat.pow_le_pow_left (by decide) power

theorem unitsPerOne_eq : ∃ bits, bits = 1074 ∧ unitsPerOne = 2 ^ bits := by
  obtain ⟨bits, same⟩ : ∃ bits, bits = 1074 := ⟨_, rfl⟩
  refine ⟨bits, same, ?_⟩
  rw [← Nat.one_shiftLeft, same]
  rfl

theorem Covers.pos {value : ℚ} (covers : magnitude.Covers value) (nonzero : magnitude.mantissa ≠ 0) :
    0 < value := by
  have least : (1 : ℚ) ≤ magnitude.mantissa := by
    exact_mod_cast Nat.one_le_iff_ne_zero.mpr nonzero
  have step : (magnitude.stepDown : ℚ) ≤ 2 := by exact_mod_cast magnitude.stepDown_le
  have below : (0 : ℚ) < (4 * magnitude.mantissa - magnitude.stepDown) * 2 ^ magnitude.scale :=
    mul_pos (by linarith) (by positivity)
  have units : (0 : ℚ) ≤ unitsPerOne := Nat.cast_nonneg _
  have product : 0 < value * unitsPerOne := by linarith [covers.low]
  by_contra other
  have := mul_nonpos_of_nonpos_of_nonneg (not_lt.mp other) units
  linarith

theorem Near.small (some : digits ≠ 0)
    (near : magnitude.Near (digits * tenTo power * unitsPerOne) (1 <<< magnitude.scale)) :
    digits.log2 + 3 * power ≤ 1024 := by
  obtain ⟨bits, isBits, units⟩ := unitsPerOne_eq
  have least : 2 ^ (digits.log2 + 3 * power + bits) ≤ digits * tenTo power * unitsPerOne := by
    rw [Nat.pow_add, Nat.pow_add, units]
    exact Nat.mul_le_mul_right _ (Nat.mul_le_mul (Nat.log2_self_le some) (two_pow_le_tenTo power))
  have most : digits * tenTo power * unitsPerOne < 2 ^ (53 + magnitude.scale) := by
    have next : magnitude.mantissa + 1 ≤ 9007199254740992 := magnitude.bounds.1
    have full := Nat.mul_le_mul_right (1 <<< magnitude.scale) next
    have positive : 0 < 1 <<< magnitude.scale := by
      rw [Nat.one_shiftLeft]
      exact Nat.two_pow_pos _
    have high := near.high
    rw [(two_pow_add _).2, ← Nat.one_shiftLeft]
    rw [Nat.add_mul magnitude.mantissa 1] at full
    omega
  have scale : magnitude.scale ≤ 2045 := magnitude.canonical.2.1
  have := (Nat.pow_lt_pow_iff_right (by decide : 1 < 2)).mp (Nat.lt_of_le_of_lt least most)
  omega

theorem Near.large (nonzero : magnitude.mantissa ≠ 0)
    (near : magnitude.Near (digits * unitsPerOne) (tenTo power <<< magnitude.scale)) :
    3 * power < digits.log2 + 1076 := by
  obtain ⟨bits, isBits, units⟩ := unitsPerOne_eq
  have one : tenTo power ≤ tenTo power <<< magnitude.scale := by
    rw [Nat.shiftLeft_eq]
    exact Nat.le_mul_of_pos_right _ (Nat.two_pow_pos _)
  have half : tenTo power <<< magnitude.scale ≤ 2 * (digits * unitsPerOne) := by
    have low := near.low
    have whole := Nat.mul_le_mul_right (tenTo power <<< magnitude.scale)
      (Nat.one_le_iff_ne_zero.mpr nonzero)
    have part := Nat.mul_le_mul_right (tenTo power <<< magnitude.scale) magnitude.stepDown_le
    omega
  have least : 2 ^ (3 * power) < 2 ^ (digits.log2 + 1 + (bits + 1)) := by
    calc 2 ^ (3 * power) ≤ tenTo power := two_pow_le_tenTo power
      _ ≤ 2 * (digits * unitsPerOne) := one.trans half
      _ < 2 * (2 ^ (digits.log2 + 1) * unitsPerOne) := by
        have := Nat.mul_lt_mul_of_pos_right (Nat.lt_log2_self (n := digits))
          (show 0 < unitsPerOne by rw [units]; exact Nat.two_pow_pos _)
        omega
      _ = 2 ^ (digits.log2 + 1 + (bits + 1)) := by
        rw [units, Nat.pow_add 2 (digits.log2 + 1), Nat.pow_succ]
        ring
  have := (Nat.pow_lt_pow_iff_right (by decide : 1 < 2)).mp least
  omega

end Magnitude

namespace Binary64
open Magnitude

theorem ofDecimal_eq {magnitude : Magnitude} {digits : Nat} {exponent : Int} (negative : Bool)
    (nonzero : magnitude.mantissa ≠ 0)
    (covers : magnitude.Covers (Decimal.value ⟨digits, exponent⟩)) :
    ofDecimal negative digits exponent = .finite negative magnitude := by
  obtain ⟨-, positive, ratio⟩ := powerOfTen_spec exponent
  have near : magnitude.Near (digits * (powerOfTen exponent).1 * unitsPerOne)
      ((powerOfTen exponent).2 <<< magnitude.scale) := by
    refine (covers_iff_near positive ?_).mp covers
    push_cast
    rw [ratio, Decimal.value]
    ring
  have some : digits ≠ 0 := by
    rintro rfl
    simpa [Decimal.value] using covers.pos nonzero
  have rounded := ofUnits_eq negative positive near
  unfold powerOfTen at near rounded
  unfold ofDecimal
  rw [if_neg some]
  by_cases whole : 0 ≤ exponent
  · rw [if_pos whole] at near rounded
    have small := near.small some
    simp only
    rw [if_neg (by omega), if_neg (by omega), if_pos whole]
    exact rounded
  · rw [if_neg whole] at near rounded
    simp only [Nat.mul_one] at near rounded
    have large := near.large nonzero
    simp only
    rw [if_neg (by omega), if_neg (by omega), if_neg whole]
    exact rounded

end Binary64
end ToolGraph
