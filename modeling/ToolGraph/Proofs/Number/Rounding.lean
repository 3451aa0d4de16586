import Mathlib.Algebra.Order.Field.Basic
import Mathlib.Data.Nat.Log
import Mathlib.Tactic.Linarith
import Mathlib.Tactic.NormNum
import Mathlib.Tactic.Ring
import ToolGraph.Number.Shortest

/-!
Rounding to the nearest number of 64 bits. What lies between the halfway points to the neighbours of a
magnitude is rounded to it; a halfway point itself only if the mantissa is even.
-/
namespace ToolGraph

theorem roundQuotient_eq {numerator denominator whole : Nat}
    (low : 2 * (whole * denominator) ≤ 2 * numerator + denominator)
    (high : 2 * numerator ≤ 2 * (whole * denominator) + denominator)
    (strict : whole % 2 = 1 → 2 * (whole * denominator) < 2 * numerator + denominator ∧
      2 * numerator < 2 * (whole * denominator) + denominator)
    (positive : 0 < denominator) : roundQuotient numerator denominator = whole := by
  have split := Nat.div_add_mod numerator denominator
  have small := Nat.mod_lt numerator positive
  unfold roundQuotient
  generalize numerator / denominator = quotient at *
  generalize numerator % denominator = rest at *
  have atMost : quotient ≤ whole := by
    by_contra more
    have := Nat.mul_le_mul_left denominator (show whole + 1 ≤ quotient by omega)
    rw [Nat.mul_add, Nat.mul_comm denominator whole] at this
    omega
  have atLeast : whole ≤ quotient + 1 := by
    by_contra less
    have := Nat.mul_le_mul_left denominator (show quotient + 2 ≤ whole by omega)
    rw [Nat.mul_add, Nat.mul_comm denominator whole] at this
    omega
  simp only
  rcases (show whole = quotient ∨ whole = quotient + 1 by omega) with rfl | rfl
  · rw [Nat.mul_comm whole denominator] at low high strict
    split_ifs <;> omega
  · rw [Nat.mul_comm (quotient + 1), Nat.mul_add] at low high strict
    split_ifs <;> omega

namespace Magnitude
variable {magnitude : Magnitude} {numerator denominator : Nat}

theorem ofParts?_eq (magnitude : Magnitude) :
    ofParts? magnitude.mantissa magnitude.scale = some magnitude := by
  rw [ofParts?, dif_pos magnitude.canonical]

theorem bounds (magnitude : Magnitude) :
    magnitude.mantissa < 9007199254740992 ∧
      (magnitude.scale ≠ 0 → 4503599627370496 ≤ magnitude.mantissa) :=
  ⟨magnitude.canonical.1, fun normal => magnitude.canonical.2.2.resolve_left normal⟩

/-- The distance from a halfway point below, in quarters of a step. -/
def stepDown (magnitude : Magnitude) : Nat :=
  if magnitude.mantissa = 1 <<< 52 ∧ magnitude.scale ≠ 0 then 1 else 2

theorem stepDown_le (magnitude : Magnitude) : magnitude.stepDown ≤ 2 := by
  unfold stepDown
  split_ifs <;> omega

/-- A ratio of units lies between the halfway points; `step` is one in the last place. -/
structure Near (magnitude : Magnitude) (numerator step : Nat) : Prop where
  low : 4 * (magnitude.mantissa * step) ≤ 4 * numerator + magnitude.stepDown * step
  high : 4 * numerator ≤ 4 * (magnitude.mantissa * step) + 2 * step
  strict : magnitude.mantissa % 2 = 1 →
    4 * (magnitude.mantissa * step) < 4 * numerator + magnitude.stepDown * step ∧
      4 * numerator < 4 * (magnitude.mantissa * step) + 2 * step

theorem readsBack_iff_near : magnitude.readsBack (4 * numerator) denominator = true ↔
    magnitude.Near numerator (denominator <<< magnitude.scale) := by
  have lower : magnitude.lowerHalfway * denominator =
      4 * (magnitude.mantissa * (denominator <<< magnitude.scale)) -
        magnitude.stepDown * (denominator <<< magnitude.scale) := by
    simp only [lowerHalfway, quarters, units, stepDown, Nat.shiftLeft_eq, Nat.one_mul, Nat.sub_mul]
    split_ifs <;> ring_nf
  have upper : magnitude.upperHalfway * denominator =
      4 * (magnitude.mantissa * (denominator <<< magnitude.scale)) +
        2 * (denominator <<< magnitude.scale) := by
    simp only [upperHalfway, quarters, units, Nat.shiftLeft_eq]
    ring
  have step := Nat.mul_le_mul_right (denominator <<< magnitude.scale) magnitude.stepDown_le
  unfold readsBack
  rw [lower, upper]
  split
  next even =>
    simp only [Bool.and_eq_true, decide_eq_true_eq]
    constructor
    · intro fits
      exact ⟨by omega, fits.2, fun odd => by omega⟩
    · intro near
      exact ⟨Nat.sub_le_iff_le_add.mpr near.low, near.high⟩
  next odd =>
    simp only [Bool.and_eq_true, decide_eq_true_eq]
    constructor
    · intro fits
      exact ⟨by omega, by omega, fun _ => ⟨by omega, by omega⟩⟩
    · intro near
      have strict := near.strict (by omega)
      have whole := Nat.mul_le_mul_right (denominator <<< magnitude.scale)
        (show 1 ≤ magnitude.mantissa by omega)
      exact ⟨by omega, strict.2⟩

theorem Near.round (near : magnitude.Near numerator denominator) (positive : 0 < denominator) :
    roundQuotient numerator denominator = magnitude.mantissa := by
  obtain ⟨low, high, strict⟩ := near
  have step := Nat.mul_le_mul_right denominator magnitude.stepDown_le
  apply roundQuotient_eq
  · omega
  · omega
  · intro odd
    have := strict odd
    omega
  · exact positive

theorem Near.below {step : Nat} (near : magnitude.Near numerator step) (positive : 0 < step) :
    numerator < 9007199254740992 * step := by
  have next : magnitude.mantissa + 1 ≤ 9007199254740992 := magnitude.bounds.1
  have full := Nat.mul_le_mul_right step next
  have high := near.high
  rw [Nat.add_mul magnitude.mantissa 1] at full
  omega

theorem Near.mantissa_eq {step : Nat} (near : magnitude.Near numerator step)
    (normal : magnitude.scale ≠ 0) (short : numerator < 4503599627370496 * step) :
    magnitude.mantissa = 4503599627370496 := by
  have least := magnitude.bounds.2 normal
  by_contra other
  have next : 4503599627370496 + 1 ≤ magnitude.mantissa := by omega
  have more := Nat.mul_le_mul_right step next
  have low := near.low
  rw [stepDown, if_neg (fun both => other both.1)] at low
  omega

end Magnitude

theorem log2_eq {value exponent : Nat} (low : 2 ^ exponent ≤ value) (high : value < 2 ^ (exponent + 1)) :
    value.log2 = exponent := by
  have some : value ≠ 0 := Nat.ne_of_gt (Nat.lt_of_lt_of_le (Nat.two_pow_pos exponent) low)
  have atLeast := (Nat.le_log2 some).mpr low
  have below := (Nat.log2_lt some).mpr high
  omega

theorem two_pow_add (scale : Nat) :
    2 ^ (52 + scale) = 4503599627370496 * 2 ^ scale ∧
      2 ^ (53 + scale) = 9007199254740992 * 2 ^ scale := by
  rw [pow_add, pow_add]
  norm_num

section quotients
variable {numerator denominator : Nat}

theorem two_pow_le_div (positive : 0 < denominator) (scale : Nat) :
    2 ^ (52 + scale) ≤ numerator / denominator ↔
      4503599627370496 * (denominator <<< scale) ≤ numerator := by
  rw [Nat.le_div_iff_mul_le positive, (two_pow_add scale).1, Nat.mul_assoc, Nat.shiftLeft_eq,
    Nat.mul_comm denominator]

theorem div_lt_two_pow (positive : 0 < denominator) (scale : Nat) :
    numerator / denominator < 2 ^ (53 + scale) ↔
      numerator < 9007199254740992 * (denominator <<< scale) := by
  rw [Nat.div_lt_iff_lt_mul positive, (two_pow_add scale).2, Nat.mul_assoc, Nat.shiftLeft_eq,
    Nat.mul_comm denominator]

theorem log2_div_eq (positive : 0 < denominator) {scale : Nat}
    (low : 4503599627370496 * (denominator <<< scale) ≤ numerator)
    (high : numerator < 9007199254740992 * (denominator <<< scale)) :
    (numerator / denominator).log2 = 52 + scale := by
  apply log2_eq ((two_pow_le_div positive scale).mpr low)
  rw [Nat.add_right_comm]
  exact (div_lt_two_pow positive scale).mpr high

end quotients

namespace Binary64
open Magnitude
variable {magnitude : Magnitude} {numerator denominator : Nat}

theorem ofUnits_of_parts {negative : Bool} {scale : Nat}
    (isScale : (numerator / denominator).log2 - 52 = scale)
    (rounded : (if roundQuotient numerator (denominator <<< scale) = 1 <<< 53 then
        ofParts? (1 <<< 52) (scale + 1)
      else ofParts? (roundQuotient numerator (denominator <<< scale)) scale) = some magnitude) :
    ofUnits negative numerator denominator = .finite negative magnitude := by
  subst isScale
  unfold ofUnits
  extract_lets scale mantissa parts
  have same : parts = some magnitude := rounded
  rw [same]

theorem ofUnits_of_scale (negative : Bool) (positive : 0 < denominator <<< magnitude.scale)
    (near : magnitude.Near numerator (denominator <<< magnitude.scale))
    (scale : (numerator / denominator).log2 - 52 = magnitude.scale) :
    ofUnits negative numerator denominator = .finite negative magnitude := by
  have notFull : magnitude.mantissa ≠ 1 <<< 53 := Nat.ne_of_lt magnitude.bounds.1
  apply ofUnits_of_parts scale
  rw [near.round positive, if_neg notFull, ofParts?_eq magnitude]

/-- Just below a power of two the steps are finer, and the mantissa is rounded up to the next power. -/
theorem ofUnits_of_short (negative : Bool) (positive : 0 < denominator)
    (near : magnitude.Near numerator (denominator <<< magnitude.scale)) (normal : magnitude.scale ≠ 0)
    (short : numerator < 4503599627370496 * (denominator <<< magnitude.scale)) :
    ofUnits negative numerator denominator = .finite negative magnitude := by
  have power := near.mantissa_eq normal short
  obtain ⟨scale, isScale⟩ := Nat.exists_eq_succ_of_ne_zero normal
  have double : denominator <<< magnitude.scale = 2 * (denominator <<< scale) := by
    rw [isScale, Nat.shiftLeft_eq, Nat.shiftLeft_eq, Nat.pow_succ]
    ring
  have stepPositive : 0 < denominator <<< scale := by
    rw [Nat.shiftLeft_eq]
    exact Nat.mul_pos positive (Nat.two_pow_pos _)
  have low := near.low
  rw [stepDown, if_pos ⟨power, normal⟩, power, double] at low
  rw [double] at short
  have finer : (numerator / denominator).log2 - 52 = scale := by
    have atLeast : 4503599627370496 * (denominator <<< scale) ≤ numerator := by omega
    rw [log2_div_eq positive atLeast (by omega)]
    omega
  have full : roundQuotient numerator (denominator <<< scale) = 1 <<< 53 := by
    show _ = 9007199254740992
    apply roundQuotient_eq <;> omega
  apply ofUnits_of_parts finer
  rw [if_pos full, ← ofParts?_eq magnitude, power, isScale]
  rfl

theorem ofUnits_eq (negative : Bool) (positive : 0 < denominator)
    (near : magnitude.Near numerator (denominator <<< magnitude.scale)) :
    ofUnits negative numerator denominator = .finite negative magnitude := by
  have stepPositive : 0 < denominator <<< magnitude.scale := by
    rw [Nat.shiftLeft_eq]
    exact Nat.mul_pos positive (Nat.two_pow_pos _)
  have below := near.below stepPositive
  by_cases short : numerator < 4503599627370496 * (denominator <<< magnitude.scale)
  · by_cases lowest : magnitude.scale = 0
    · apply ofUnits_of_scale negative stepPositive near
      have quotientBelow := (div_lt_two_pow positive magnitude.scale).mpr below
      rw [lowest] at quotientBelow ⊢
      by_cases none : numerator / denominator = 0
      · rw [none]
        rfl
      · have := (Nat.log2_lt none).mpr quotientBelow
        omega
    · exact ofUnits_of_short negative positive near lowest short
  · apply ofUnits_of_scale negative stepPositive near
    rw [log2_div_eq positive (Nat.le_of_not_lt short) below]
    omega

end Binary64
end ToolGraph
