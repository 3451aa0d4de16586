import ToolGraph.Proofs.Number.Decimal

/-!
The shortest text of a magnitude reads back as that magnitude. Each grid of decimals is only used where
a point of it reads back, and one of the first seventeen grids has such a point.
-/
namespace ToolGraph.Magnitude
variable {magnitude : Magnitude} {exponent : Int}

theorem fits_iff_covers (whole : Nat) :
    magnitude.readsBack (whole * (4 * unitsPerOne * (powerOfTen exponent).1))
        (powerOfTen exponent).2 = true ↔
      magnitude.Covers (Decimal.value ⟨whole, exponent⟩) := by
  obtain ⟨-, positive, ratio⟩ := powerOfTen_spec exponent
  have quarters : whole * (4 * unitsPerOne * (powerOfTen exponent).1) =
      4 * (whole * (powerOfTen exponent).1 * unitsPerOne) := by ring
  rw [quarters, readsBack_iff_near, covers_iff_near positive]
  push_cast
  rw [ratio, Decimal.value]
  ring

theorem roundQuotient_cases (numerator denominator : Nat) :
    roundQuotient numerator denominator = numerator / denominator ∨
      roundQuotient numerator denominator = numerator / denominator + 1 := by
  unfold roundQuotient
  simp only
  split_ifs <;> omega

theorem covers_of_onGrid? {decimal : Decimal} (found : magnitude.onGrid? exponent = some decimal) :
    magnitude.Covers decimal.value := by
  unfold onGrid? at found
  simp only at found
  split at found
  next both =>
    obtain rfl := Option.some.inj found
    obtain ⟨below, above⟩ := Bool.and_eq_true_iff.mp both
    rcases roundQuotient_cases (magnitude.quarters * (powerOfTen exponent).2)
      (4 * unitsPerOne * (powerOfTen exponent).1) with same | same
    · exact same ▸ (fits_iff_covers _).mp below
    · exact same ▸ (fits_iff_covers _).mp above
  next =>
    split at found
    next below =>
      obtain rfl := Option.some.inj found
      exact (fits_iff_covers _).mp below
    next =>
      split at found
      next above =>
        obtain rfl := Option.some.inj found
        exact (fits_iff_covers _).mp above
      next => simp at found

theorem onGrid?_isSome {whole : Nat} (covers : magnitude.Covers (Decimal.value ⟨whole, exponent⟩))
    (around : whole = magnitude.quarters * (powerOfTen exponent).2 /
        (4 * unitsPerOne * (powerOfTen exponent).1) ∨
      whole = magnitude.quarters * (powerOfTen exponent).2 /
        (4 * unitsPerOne * (powerOfTen exponent).1) + 1) :
    (magnitude.onGrid? exponent).isSome := by
  have fits := (fits_iff_covers whole).mpr covers
  unfold onGrid?
  simp only
  split
  next => rfl
  next neither =>
    split
    next => rfl
    next below =>
      split
      next => rfl
      next above =>
        rcases around with same | same
        · exact absurd (same ▸ fits) below
        · exact absurd (same ▸ fits) above

theorem around_grid (magnitude : Magnitude) (exponent : Int) :
    ∃ below : Nat, below = magnitude.quarters * (powerOfTen exponent).2 /
        (4 * unitsPerOne * (powerOfTen exponent).1) ∧
      (below : ℚ) * (10 ^ exponent * unitsPerOne) ≤ magnitude.mantissa * 2 ^ magnitude.scale ∧
      magnitude.mantissa * 2 ^ magnitude.scale < (below + 1 : ℚ) * (10 ^ exponent * unitsPerOne) := by
  obtain ⟨up, down, ratio⟩ := powerOfTen_spec exponent
  obtain ⟨bits, -, units⟩ := unitsPerOne_eq
  have one : 0 < unitsPerOne := units ▸ Nat.two_pow_pos bits
  have step : 0 < 4 * unitsPerOne * (powerOfTen exponent).1 := Nat.mul_pos (by omega) up
  have scale : (0 : ℚ) < 4 * (powerOfTen exponent).2 := by
    have : (0 : ℚ) < (powerOfTen exponent).2 := by exact_mod_cast down
    linarith
  have low := Nat.div_mul_le_self (magnitude.quarters * (powerOfTen exponent).2)
    (4 * unitsPerOne * (powerOfTen exponent).1)
  have high := Nat.lt_mul_div_succ (magnitude.quarters * (powerOfTen exponent).2) step
  refine ⟨_, rfl, ?_, ?_⟩
  · rw [← Nat.cast_le (α := ℚ)] at low
    refine (compare_of_scaled scale ?_).1.mpr low
    simp only [Magnitude.quarters, Magnitude.units, Nat.shiftLeft_eq]
    push_cast
    rw [ratio]
    ring
  · rw [← Nat.cast_lt (α := ℚ)] at high
    refine (compare_of_scaled scale ?_).2.mpr high
    simp only [Magnitude.quarters, Magnitude.units, Nat.shiftLeft_eq]
    push_cast
    rw [ratio]
    ring

/-- Steps that are finer than a sixteen-digit fraction of the magnitude do not jump over it. -/
theorem onGrid?_of_fine
    (fine : (10 : ℚ) ^ exponent * unitsPerOne * 10 ^ 16 ≤ magnitude.mantissa * 2 ^ magnitude.scale) :
    (magnitude.onGrid? exponent).isSome := by
  obtain ⟨below, isBelow, low, high⟩ := around_grid magnitude exponent
  have size : (0 : ℚ) < 2 ^ magnitude.scale := by positivity
  have twice : (magnitude.stepDown : ℚ) ≤ 2 := by exact_mod_cast magnitude.stepDown_le
  -- a step is shorter than twice the way to either halfway point
  have short : 2 * ((10 : ℚ) ^ exponent * unitsPerOne) < magnitude.stepDown * 2 ^ magnitude.scale := by
    have mantissa : 2 * (magnitude.mantissa : ℚ) < magnitude.stepDown * 10 ^ 16 := by
      unfold stepDown
      split_ifs with power
      · rw [power.1, show (1 <<< 52 : Nat) = 4503599627370496 from rfl]
        norm_num
      · have : (magnitude.mantissa : ℚ) < 9007199254740992 := by exact_mod_cast magnitude.bounds.1
        norm_num
        linarith
    have := mul_lt_mul_of_pos_right mantissa size
    linarith
  have narrow : magnitude.stepDown * (2 : ℚ) ^ magnitude.scale ≤ 2 * 2 ^ magnitude.scale :=
    mul_le_mul_of_nonneg_right twice size.le
  have covers : ∀ value : ℚ,
      4 * (magnitude.mantissa * 2 ^ magnitude.scale : ℚ) - magnitude.stepDown * 2 ^ magnitude.scale <
        4 * (value * unitsPerOne) →
      4 * (value * unitsPerOne) <
        4 * (magnitude.mantissa * 2 ^ magnitude.scale : ℚ) + 2 * 2 ^ magnitude.scale →
      magnitude.Covers value := by
    intro value above under
    have above : (4 * magnitude.mantissa - magnitude.stepDown) * 2 ^ magnitude.scale <
        4 * (value * unitsPerOne) := by linarith
    have under : 4 * (value * unitsPerOne) <
        (4 * magnitude.mantissa + 2) * 2 ^ magnitude.scale := by linarith
    exact ⟨above.le, under.le, fun _ => ⟨above, under⟩⟩
  by_cases half : 2 * (magnitude.mantissa * 2 ^ magnitude.scale : ℚ) ≤
      (2 * below + 1) * (10 ^ exponent * unitsPerOne)
  · apply onGrid?_isSome (covers (below * 10 ^ exponent) ?_ ?_) (.inl isBelow)
    · linarith
    · linarith
  · apply onGrid?_isSome (covers ((below + 1 : Nat) * 10 ^ exponent) ?_ ?_)
      (.inr (congrArg (· + 1) isBelow))
    · push_cast
      linarith
    · push_cast
      linarith

theorem estimate_small {bits : Nat} (few : bits < 2098) :
    (powerOfTen (Int.fdiv (((bits : Int) - 1074) * 30103) 100000 - 1)).1 * unitsPerOne ≤
      2 ^ bits * (powerOfTen (Int.fdiv (((bits : Int) - 1074) * 30103) 100000 - 1)).2 := by
  have all : (List.range 2098).all (fun bits : Nat =>
      decide ((powerOfTen (Int.fdiv (((bits : Int) - 1074) * 30103) 100000 - 1)).1 * unitsPerOne ≤
        2 ^ bits * (powerOfTen (Int.fdiv (((bits : Int) - 1074) * 30103) 100000 - 1)).2)) = true := by
    decide +kernel
  exact of_decide_eq_true (List.all_eq_true.mp all bits (List.mem_range.mpr few))

theorem log2_units_lt (nonzero : magnitude.mantissa ≠ 0) : magnitude.units.log2 < 2098 := by
  have units : magnitude.units = magnitude.mantissa * 2 ^ magnitude.scale := Nat.shiftLeft_eq _ _
  have positive : magnitude.units ≠ 0 := by
    rw [units]
    exact Nat.mul_ne_zero nonzero (Nat.two_pow_pos _).ne'
  have few : magnitude.units < 2 ^ (53 + magnitude.scale) := by
    rw [units, (two_pow_add _).2]
    exact Nat.mul_lt_mul_of_pos_right magnitude.bounds.1 (Nat.two_pow_pos _)
  have := (Nat.log2_lt positive).mpr few
  have scale : magnitude.scale ≤ 2045 := magnitude.canonical.2.1
  omega

theorem decimalExponent_le (nonzero : magnitude.mantissa ≠ 0) :
    (10 : ℚ) ^ magnitude.decimalExponent * unitsPerOne ≤ magnitude.mantissa * 2 ^ magnitude.scale := by
  have small : (powerOfTen magnitude.decimalExponent).1 * unitsPerOne ≤
      magnitude.units * (powerOfTen magnitude.decimalExponent).2 := by
    unfold decimalExponent
    simp only [decide_eq_true_eq]
    split
    next next => exact next
    next =>
      split
      next same => exact same
      next =>
        have positive : magnitude.units ≠ 0 := by
          rw [Magnitude.units, Nat.shiftLeft_eq]
          exact Nat.mul_ne_zero nonzero (Nat.two_pow_pos _).ne'
        exact (estimate_small (log2_units_lt nonzero)).trans
          (Nat.mul_le_mul_right _ (Nat.log2_self_le positive))
  obtain ⟨-, down, ratio⟩ := powerOfTen_spec magnitude.decimalExponent
  have below : (0 : ℚ) < (powerOfTen magnitude.decimalExponent).2 := by exact_mod_cast down
  have cast : ((powerOfTen magnitude.decimalExponent).1 * unitsPerOne : ℚ) ≤
      magnitude.units * (powerOfTen magnitude.decimalExponent).2 := by exact_mod_cast small
  have units : (magnitude.units : ℚ) = magnitude.mantissa * 2 ^ magnitude.scale := by
    rw [Magnitude.units, Nat.shiftLeft_eq]
    push_cast
    rfl
  rw [ratio, units] at cast
  refine le_of_mul_le_mul_right ?_ below
  linarith

theorem firstOnGrid_covers : ∀ {grids : Nat} {exponent : Int} {finer : Nat}, finer < grids →
    (magnitude.onGrid? (exponent - finer)).isSome →
    magnitude.Covers (magnitude.firstOnGrid grids exponent).value
  | 0, _, _, few, _ => absurd few (Nat.not_lt_zero _)
  | grids + 1, exponent, finer, few, hit => by
    rw [firstOnGrid]
    cases found : magnitude.onGrid? exponent with
    | some decimal => exact covers_of_onGrid? found
    | none =>
      cases finer with
      | zero =>
        rw [Nat.cast_zero, Int.sub_zero, found] at hit
        exact absurd hit Bool.false_ne_true
      | succ finer =>
        refine firstOnGrid_covers (Nat.lt_of_succ_lt_succ few) ?_
        rwa [show exponent - 1 - finer = exponent - (finer + 1 : Nat) by push_cast; ring]

theorem shortest_covers (nonzero : magnitude.mantissa ≠ 0) :
    magnitude.Covers magnitude.shortest.value := by
  refine firstOnGrid_covers (show 16 < 17 by decide) (onGrid?_of_fine ?_)
  have split : (10 : ℚ) ^ (magnitude.decimalExponent - (16 : Nat)) * 10 ^ 16 =
      10 ^ magnitude.decimalExponent := by
    rw [zpow_sub₀ (by norm_num)]
    norm_num
  calc (10 : ℚ) ^ (magnitude.decimalExponent - (16 : Nat)) * unitsPerOne * 10 ^ 16
      = (10 : ℚ) ^ (magnitude.decimalExponent - (16 : Nat)) * 10 ^ 16 * unitsPerOne := by ring
    _ = (10 : ℚ) ^ magnitude.decimalExponent * unitsPerOne := by rw [split]
    _ ≤ magnitude.mantissa * 2 ^ magnitude.scale := decimalExponent_le nonzero

end ToolGraph.Magnitude
