import ToolGraph.Proofs.Number.Rounding

/-!
Powers of two among the numbers of 64 bits. Those that are numbers are exact, and so is a product with
one of them, as long as there is a number for it.
-/
namespace ToolGraph

theorem shiftLeft_shiftLeft {one two all more : Nat} (same : one + two = all + more) :
    (1 <<< one) <<< two = 2 ^ more * (1 <<< all) := by
  rw [← Nat.shiftLeft_add, same, Nat.shiftLeft_add, Nat.shiftLeft_eq, Nat.mul_comm]

theorem roundQuotient_exact (whole : Nat) {denominator : Nat} (positive : 0 < denominator) :
    roundQuotient (whole * denominator) denominator = whole :=
  roundQuotient_eq (by omega) (by omega) (fun _ => by omega) positive

namespace Magnitude

def power (exponent : Nat) (small : exponent < 1024) : Magnitude where
  mantissa := 1 <<< 52
  scale := exponent + 1022
  canonical := ⟨by decide, by omega, .inr (Nat.le_refl _)⟩

theorem units_power {exponent : Nat} (small : exponent < 1024) :
    (power exponent small).units = 2 ^ exponent * unitsPerOne := by
  have same : 52 + (exponent + 1022) = 1074 + exponent := by omega
  exact shiftLeft_shiftLeft same

theorem near_of_exact {magnitude : Magnitude} {numerator denominator : Nat}
    (exact : numerator = magnitude.units * denominator) (positive : 0 < denominator) :
    magnitude.Near numerator (denominator <<< magnitude.scale) := by
  have same : numerator = magnitude.mantissa * (denominator <<< magnitude.scale) := by
    rw [exact, units, Nat.shiftLeft_eq, Nat.shiftLeft_eq]
    ring
  have step : 0 < denominator <<< magnitude.scale := by
    rw [Nat.shiftLeft_eq]
    exact Nat.mul_pos positive (Nat.two_pow_pos _)
  have down : 0 < magnitude.stepDown * (denominator <<< magnitude.scale) := by
    refine Nat.mul_pos ?_ step
    unfold stepDown
    split_ifs <;> omega
  exact ⟨by omega, by omega, fun _ => ⟨by omega, by omega⟩⟩

end Magnitude

namespace Binary64
open Magnitude

theorem ofUnits_exact (negative : Bool) {magnitude : Magnitude} {numerator denominator : Nat}
    (exact : numerator = magnitude.units * denominator) (positive : 0 < denominator) :
    ofUnits negative numerator denominator = .finite negative magnitude :=
  ofUnits_eq negative positive (near_of_exact exact positive)

theorem ofUnits_of_none {negative : Bool} {numerator denominator scale : Nat}
    (isScale : (numerator / denominator).log2 - 52 = scale)
    (rounded : (if roundQuotient numerator (denominator <<< scale) = 1 <<< 53 then
        ofParts? (1 <<< 52) (scale + 1)
      else ofParts? (roundQuotient numerator (denominator <<< scale)) scale) = none) :
    ofUnits negative numerator denominator = .infinite negative := by
  subst isScale
  unfold ofUnits
  extract_lets scale mantissa parts
  have same : parts = none := rounded
  rw [same]

theorem ofUnits_infinite (negative : Bool) {scale : Nat} (large : 2045 < scale) :
    ofUnits negative ((1 <<< 52) <<< scale) 1 = .infinite negative := by
  have mantissa (whole : Nat) : roundQuotient (whole <<< scale) (1 <<< scale) = whole := by
    rw [Nat.shiftLeft_eq whole, Nat.one_shiftLeft]
    exact roundQuotient_exact whole (Nat.two_pow_pos scale)
  have none : ofParts? (1 <<< 52) scale = none := by
    rw [ofParts?, dif_neg]
    omega
  have notFull : 1 <<< 52 ≠ 1 <<< 53 := by decide
  have isScale : ((1 <<< 52) <<< scale / 1).log2 - 52 = scale := by
    rw [Nat.div_one, ← Nat.shiftLeft_add, Nat.one_shiftLeft, Nat.log2_two_pow]
    omega
  refine ofUnits_of_none isScale ?_
  rw [mantissa, if_neg notFull, none]

theorem ofInt_natCast (value : Nat) :
    ofInt (Int.ofNat value) = ofUnits false (value * unitsPerOne) 1 := by
  have natural : ¬ Int.ofNat value < 0 := by simp
  simp only [ofInt, ofRatio, natural, decide_false, Int.natAbs_ofNat']

theorem ofInt_power {exponent : Nat} (small : exponent < 1024) :
    ofInt (Int.ofNat (1 <<< exponent)) = .finite false (power exponent small) := by
  rw [ofInt_natCast]
  refine ofUnits_exact false ?_ Nat.one_pos
  rw [units_power, Nat.mul_one, Nat.one_shiftLeft]

theorem ofInt_infinite {exponent : Nat} (large : 1024 ≤ exponent) :
    ofInt (Int.ofNat (1 <<< exponent)) = .infinite false := by
  have units : (1 <<< exponent) * unitsPerOne = (1 <<< 52) <<< (exponent + 1022) := by
    have same : 52 + (exponent + 1022) = 1074 + exponent := by omega
    rw [Nat.one_shiftLeft]
    exact (shiftLeft_shiftLeft same).symm
  rw [ofInt_natCast, units]
  exact ofUnits_infinite false (by omega)

theorem mul_power {negative : Bool} {base product : Magnitude} {exponent : Nat}
    (small : exponent < 1024) (exact : product.units = base.units * 2 ^ exponent) :
    (Binary64.finite negative base).mul (ofInt (Int.ofNat (1 <<< exponent))) =
      .finite negative product := by
  have positive : 0 < unitsPerOne := by decide
  rw [ofInt_power small, mul, isNegative, isNegative, Bool.bne_false, units_power]
  refine ofUnits_exact negative ?_ positive
  rw [exact, Nat.mul_assoc]

end Binary64
end ToolGraph
