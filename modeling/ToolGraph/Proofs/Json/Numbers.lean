import ToolGraph.Json.Printer
import ToolGraph.Proofs.Number.Digits
import ToolGraph.Proofs.Number.Shortest

/-!
Numbers in a JSON text. Whatever form the shortest decimal of a magnitude has, what is read is a
decimal of the same value, and so the same number.
-/
namespace ToolGraph.Json
open Text Number

def NoNumber (text : List Char) : Prop :=
  ∀ c ∈ text.head?, isAsciiDigit c = false ∧ c ≠ '.' ∧ c ≠ 'e' ∧ c ≠ 'E'

section parts
variable {digits whole fraction tail rest : List Char} {exponent : Int}

theorem NoNumber.noDigit (ends : NoNumber rest) : NoDigit rest := fun c start => (ends c start).1

theorem cutFraction?_none (other : ∀ c ∈ rest.head?, c ≠ '.') : cutFraction? rest = none := by
  unfold cutFraction?
  split
  next => exact absurd rfl (other '.' rfl)
  next => rfl

theorem cutFraction?_point (all : AllDigits fraction) (filled : fraction ≠ []) (ends : NoDigit rest) :
    cutFraction? ('.' :: (fraction ++ rest)) = some (fraction, rest) := by
  have start : (fraction ++ rest).head?.any isAsciiDigit = true := by
    obtain ⟨c, more, rfl⟩ := List.exists_cons_of_ne_nil filled
    exact all c List.mem_cons_self
  simp only [cutFraction?, start, ↓reduceIte, all.takeWhile ends, all.dropWhile ends]

theorem cutExponent?_none (ends : NoNumber rest) : cutExponent? rest = none := by
  cases rest with
  | nil => rfl
  | cons mark rest =>
    obtain ⟨-, -, lower, upper⟩ := ends mark rfl
    simp [cutExponent?, lower, upper]

theorem exponentText_eq (exponent : Int) :
    ∃ digits, (Decimal.exponentText exponent).toList =
        (if exponent < 0 then '-' else '+') :: digits ∧
      AllDigits digits ∧ digits ≠ [] ∧ digitsValue digits = exponent.natAbs := by
  have sign : (if exponent < 0 then "-" else "+" : String).toList =
      [if exponent < 0 then '-' else '+'] := by
    split <;> rfl
  unfold Decimal.exponentText
  simp only [String.toList_append, sign, List.singleton_append]
  by_cases short : (toString exponent.natAbs).length < 2
  · refine ⟨['0'] ++ Nat.toDigits 10 exponent.natAbs, ?_, ?_, List.cons_ne_nil _ _, ?_⟩
    · rw [if_pos short]
      simp
    · exact (AllDigits.zeros 1).append (allDigits_toDigits _)
    · rw [digitsValue_append, show digitsValue ['0'] = 0 from rfl, digitsValue_toDigits]
      omega
  · refine ⟨Nat.toDigits 10 exponent.natAbs, ?_, allDigits_toDigits _, Nat.toDigits_ne_nil, ?_⟩
    · rw [if_neg short]
      simp
    · exact digitsValue_toDigits _

theorem cutExponent?_text (ends : NoDigit rest) :
    cutExponent? ('e' :: ((Decimal.exponentText exponent).toList ++ rest)) =
      some (exponent, rest) := by
  obtain ⟨digits, same, all, filled, value⟩ := exponentText_eq exponent
  have start : (digits ++ rest).head?.any isAsciiDigit = true := by
    obtain ⟨c, more, rfl⟩ := List.exists_cons_of_ne_nil filled
    exact all c List.mem_cons_self
  have sign : cutSign ((if exponent < 0 then '-' else '+') :: (digits ++ rest)) =
      (decide (exponent < 0), digits ++ rest) := by
    by_cases negative : exponent < 0
    · simp [negative, cutSign]
    · simp [negative, cutSign]
  rw [same, List.cons_append]
  simp only [cutExponent?, sign, start, all.takeWhile ends, all.dropWhile ends, value]
  by_cases negative : exponent < 0
  · simp only [negative, decide_true, beq_self_eq_true, Bool.true_or, Bool.and_true, ↓reduceIte]
    congr 2
    omega
  · simp only [negative, decide_false, beq_self_eq_true, Bool.true_or, Bool.and_true, ↓reduceIte,
      Bool.false_eq_true]
    congr 2
    omega

/-! ### Digits, a point and an exponent -/

theorem readNumber_whole (negative : Bool) (isWhole : IsWhole whole) (ends : NoNumber rest)
    (short : whole.length ≤ maxDigits) :
    readNumber negative (whole ++ rest) = .ok (.int (if negative then
      -(digitsValue whole : Int) else digitsValue whole), rest) := by
  have point : ∀ c ∈ rest.head?, c ≠ '.' := fun c start => (ends c start).2.1
  simp [readNumber, cutWhole_append isWhole ends.noDigit, isWhole.ne_nil, cutFraction?_none point,
    cutExponent?_none ends, Nat.not_lt.mpr short]

theorem readNumber_fraction (negative : Bool) (isWhole : IsWhole whole) (all : AllDigits fraction)
    (filled : fraction ≠ []) (ends : NoDigit tail)
    (power : (cutExponent? tail).getD (0, tail) = (exponent, rest)) :
    readNumber negative (whole ++ '.' :: (fraction ++ tail)) =
      .ok (.float (Binary64.ofDecimal negative (digitsValue (whole ++ fraction))
        (exponent - fraction.length)), rest) := by
  have point : NoDigit ('.' :: (fraction ++ tail)) := by
    rintro c ⟨⟩
    rfl
  simp [readNumber, cutWhole_append isWhole point, isWhole.ne_nil, cutFraction?_point all filled ends,
    power]

theorem readNumber_exponent (negative : Bool) (isWhole : IsWhole whole) (ends : NoDigit rest) :
    readNumber negative
        (whole ++ 'e' :: ((Decimal.exponentText exponent).toList ++ rest)) =
      .ok (.float (Binary64.ofDecimal negative (digitsValue whole) exponent), rest) := by
  have mark : NoDigit ('e' :: ((Decimal.exponentText exponent).toList ++ rest)) := by
    rintro c ⟨⟩
    rfl
  have point : ∀ c ∈ ('e' :: ((Decimal.exponentText exponent).toList ++ rest)).head?, c ≠ '.' := by
    rintro c ⟨⟩
    decide
  simp [readNumber, cutWhole_append isWhole mark, isWhole.ne_nil, cutFraction?_none point,
    cutExponent?_text ends]

end parts

/-! ### The texts of decimals -/

def ReadsAs (text : List Char) (value : ℚ) : Prop :=
  ∀ (negative : Bool) {rest : List Char}, NoNumber rest →
    ∃ decimal : Decimal, decimal.value = value ∧ readNumber negative (text ++ rest) =
      .ok (.float (Binary64.ofDecimal negative decimal.digits decimal.exponent), rest)

section texts
variable {whole fraction : List Char} {exponent : Int}

theorem readsAs_point (isWhole : IsWhole whole) (all : AllDigits fraction) (filled : fraction ≠ []) :
    ReadsAs (whole ++ '.' :: fraction)
      (Decimal.value ⟨digitsValue (whole ++ fraction), -fraction.length⟩) := by
  intro negative rest ends
  have power : (cutExponent? rest).getD (0, rest) = (0, rest) := by rw [cutExponent?_none ends]; rfl
  have read := readNumber_fraction negative isWhole all filled ends.noDigit power
  rw [Int.zero_sub] at read
  refine ⟨_, rfl, ?_⟩
  rw [List.append_assoc, List.cons_append]
  exact read

theorem readsAs_power (isWhole : IsWhole whole) :
    ReadsAs (whole ++ 'e' :: (Decimal.exponentText exponent).toList)
      (Decimal.value ⟨digitsValue whole, exponent⟩) := by
  intro negative rest ends
  refine ⟨_, rfl, ?_⟩
  rw [List.append_assoc, List.cons_append]
  exact readNumber_exponent negative isWhole ends.noDigit

theorem readsAs_point_power (isWhole : IsWhole whole) (all : AllDigits fraction)
    (filled : fraction ≠ []) :
    ReadsAs (whole ++ '.' :: (fraction ++ 'e' :: (Decimal.exponentText exponent).toList))
      (Decimal.value ⟨digitsValue (whole ++ fraction), exponent - fraction.length⟩) := by
  intro negative rest ends
  have mark : NoDigit ('e' :: ((Decimal.exponentText exponent).toList ++ rest)) := by
    rintro c ⟨⟩
    rfl
  have power : (cutExponent? ('e' :: ((Decimal.exponentText exponent).toList ++ rest))).getD
      (0, 'e' :: ((Decimal.exponentText exponent).toList ++ rest)) = (exponent, rest) := by
    rw [cutExponent?_text ends.noDigit]
    rfl
  refine ⟨_, rfl, ?_⟩
  simp only [List.append_assoc, List.cons_append]
  exact readNumber_fraction negative isWhole all filled mark power

theorem value_scaled (digits power : Nat) (exponent : Int) :
    Decimal.value ⟨10 ^ power * digits, exponent - power⟩ = Decimal.value ⟨digits, exponent⟩ := by
  have ten : (10 : ℚ) ≠ 0 := by norm_num
  simp only [Decimal.value]
  rw [zpow_sub₀ ten, zpow_natCast]
  push_cast
  field_simp

theorem dropZeros_spec (steps : Nat) (decimal : Decimal) (nonzero : decimal.digits ≠ 0) :
    (decimal.dropZeros steps).digits ≠ 0 ∧ (decimal.dropZeros steps).value = decimal.value := by
  induction steps generalizing decimal with
  | zero => exact ⟨nonzero, rfl⟩
  | succ steps ih =>
    rw [Decimal.dropZeros]
    split
    next zero =>
      obtain ⟨some, same⟩ := ih ⟨decimal.digits / 10, decimal.exponent + 1⟩
        (show decimal.digits / 10 ≠ 0 by omega)
      refine ⟨some, same.trans ?_⟩
      have scaled := value_scaled (decimal.digits / 10) 1 (decimal.exponent + 1)
      rw [pow_one, show 10 * (decimal.digits / 10) = decimal.digits by omega, Nat.cast_one,
        Int.add_sub_cancel] at scaled
      exact scaled.symm
    next => exact ⟨nonzero, rfl⟩

theorem isWhole_take {digits count : Nat} (nonzero : digits ≠ 0) (some : count ≠ 0) :
    IsWhole ((Nat.toDigits 10 digits).take count) := by
  refine ⟨(allDigits_toDigits digits).take count, .inr ?_⟩
  have start := head?_toDigits nonzero
  obtain ⟨c, more, same⟩ := List.exists_cons_of_ne_nil (@Nat.toDigits_ne_nil digits 10)
  obtain ⟨count, rfl⟩ := Nat.exists_eq_succ_of_ne_zero some
  rw [same] at start ⊢
  exact ⟨List.cons_ne_nil _ _, start⟩

theorem readsAs_small {digits zeros : Nat}
    (sum : exponent = -(zeros + (Nat.toDigits 10 digits).length : Nat)) :
    ReadsAs ("0." ++ String.ofList (List.replicate zeros '0' ++ Nat.toDigits 10 digits)).toList
      (Decimal.value ⟨digits, exponent⟩) := by
  have all := (AllDigits.zeros zeros).append (allDigits_toDigits digits)
  have filled : List.replicate zeros '0' ++ Nat.toDigits 10 digits ≠ [] :=
    List.append_ne_nil_of_right_ne_nil _ Nat.toDigits_ne_nil
  have read := readsAs_point ⟨AllDigits.zeros 1, .inl rfl⟩ all filled
  convert read using 1
  · simp
  · rw [digitsValue_append, digitsValue_append, digitsValue_zeros, digitsValue_zeros,
      digitsValue_toDigits, sum, List.length_append, List.length_replicate]
    simp only [Nat.mul_zero, Nat.zero_add]

theorem readsAs_large {digits zeros : Nat} (nonzero : digits ≠ 0) :
    ReadsAs (String.ofList (Nat.toDigits 10 digits ++ List.replicate zeros '0') ++ ".0").toList
      (Decimal.value ⟨digits, zeros⟩) := by
  have isWhole : IsWhole (Nat.toDigits 10 digits ++ List.replicate zeros '0') := by
    refine ⟨(allDigits_toDigits digits).append (AllDigits.zeros zeros), .inr ?_⟩
    have start := head?_toDigits nonzero
    obtain ⟨c, more, same⟩ := List.exists_cons_of_ne_nil (@Nat.toDigits_ne_nil digits 10)
    rw [same] at start ⊢
    exact ⟨List.cons_ne_nil _ _, start⟩
  have read := readsAs_point isWhole (AllDigits.zeros 1) (List.cons_ne_nil _ _)
  convert read using 1
  · simp
  · have whole := value_scaled digits zeros zeros
    have point := value_scaled (10 ^ zeros * digits) 1 0
    rw [Int.sub_self] at whole
    rw [Int.zero_sub] at point
    rw [digitsValue_append, digitsValue_append, digitsValue_zeros, digitsValue_zeros,
      digitsValue_toDigits, List.length_replicate, List.length_replicate, Nat.add_zero, Nat.add_zero]
    exact whole.symm.trans point.symm

theorem readsAs_inside {digits count : Nat} (nonzero : digits ≠ 0) (some : count ≠ 0)
    (sum : (Nat.toDigits 10 digits).length + exponent = count) (fraction : exponent < 0) :
    ReadsAs (String.ofList ((Nat.toDigits 10 digits).take count) ++ "." ++
        String.ofList ((Nat.toDigits 10 digits).drop count)).toList
      (Decimal.value ⟨digits, exponent⟩) := by
  have filled : (Nat.toDigits 10 digits).drop count ≠ [] := by
    rw [← List.length_pos_iff, List.length_drop]
    omega
  have read := readsAs_point (isWhole_take nonzero some)
    ((allDigits_toDigits digits).drop count) filled
  convert read using 1
  · simp
  · rw [List.take_append_drop, digitsValue_toDigits, List.length_drop]
    congr 2
    omega

theorem readsAs_scientific {digits : Nat} (nonzero : digits ≠ 0) :
    ReadsAs (String.ofList ((Nat.toDigits 10 digits).take 1) ++
        (if (Nat.toDigits 10 digits).length = 1 then ""
          else "." ++ String.ofList ((Nat.toDigits 10 digits).drop 1)) ++
        "e" ++ Decimal.exponentText ((Nat.toDigits 10 digits).length + exponent - 1)).toList
      (Decimal.value ⟨digits, exponent⟩) := by
  have isWhole : IsWhole ((Nat.toDigits 10 digits).take 1) := isWhole_take nonzero Nat.one_ne_zero
  have positive : 0 < (Nat.toDigits 10 digits).length := Nat.length_toDigits_pos
  by_cases single : (Nat.toDigits 10 digits).length = 1
  · rw [if_pos single]
    convert readsAs_power isWhole using 1
    · simp
      rfl
    · rw [List.take_of_length_le single.le, digitsValue_toDigits]
      congr 2
      omega
  · rw [if_neg single]
    have filled : (Nat.toDigits 10 digits).drop 1 ≠ [] := by
      rw [← List.length_pos_iff, List.length_drop]
      omega
    convert readsAs_point_power isWhole ((allDigits_toDigits digits).drop 1) filled using 1
    · simp
      rfl
    · rw [List.take_append_drop, digitsValue_toDigits, List.length_drop]
      congr 2
      omega

theorem readsAs_toText (decimal : Decimal) (nonzero : decimal.digits ≠ 0) :
    ReadsAs decimal.toText.toList decimal.value := by
  obtain ⟨some, same⟩ := dropZeros_spec 20 decimal nonzero
  unfold Decimal.toText
  rw [← same]
  clear same nonzero
  generalize decimal.dropZeros 20 = short at some
  obtain ⟨digits, exponent⟩ := short
  have written : (toString digits).toList = Nat.toDigits 10 digits := Nat.toList_repr
  have positive : 0 < (Nat.toDigits 10 digits).length := Nat.length_toDigits_pos
  simp only [written]
  split
  next positional =>
    split
    next small => exact readsAs_small (by omega)
    next =>
      split
      next whole =>
        obtain ⟨zeros, rfl⟩ := Int.eq_ofNat_of_zero_le whole
        exact readsAs_large some
      next fraction => exact readsAs_inside some (by omega) (by omega) (by omega)
  next => exact readsAs_scientific some

end texts

/-! ### Signs and words -/

section scalars
variable {text rest : List Char}

theorem starts_of_readNumber {negative : Bool} {read : Json × List Char}
    (given : readNumber negative text = .ok read) :
    ∃ c more, text = c :: more ∧ isAsciiDigit c = true := by
  have whole : (cutWhole text).1 ≠ [] := by
    intro empty
    simp [readNumber, empty] at given
  unfold cutWhole at whole
  split at whole
  next more => exact ⟨'0', more, rfl, rfl⟩
  next =>
    cases text with
    | nil => exact absurd rfl whole
    | cons c more =>
      by_cases digit : isAsciiDigit c = true
      · exact ⟨c, more, rfl, digit⟩
      · exact absurd (List.takeWhile_cons_of_neg digit) whole

theorem readScalar_of_number {negative : Bool} {read : Json × List Char}
    (given : readNumber negative text = .ok read) :
    readScalar ((if negative then ['-'] else []) ++ text) = .ok read := by
  obtain ⟨c, more, rfl, digit⟩ := starts_of_readNumber given
  have other : ∀ d, isAsciiDigit d = false → c ≠ d := by
    rintro d none rfl
    exact Bool.false_ne_true (none.symm.trans digit)
  have quote := other '"' rfl
  have noWord : ∀ d, isAsciiDigit d = false → (d == c) = false := fun d none =>
    beq_eq_false_iff_ne.mpr (other d none).symm
  cases negative with
  | true =>
    simp [readScalar, words, List.isPrefixOf, noWord 'I' rfl, given]
  | false =>
    have sign := other '-' rfl
    simp [readScalar, words, List.isPrefixOf, noWord 'n' rfl, noWord 't' rfl, noWord 'f' rfl,
      noWord 'N' rfl, noWord 'I' rfl, noWord '-' rfl, quote, sign, given]

theorem isWritable_iff {value : Int} : isWritable value = true ↔ value.natAbs < 10 ^ maxDigits := by
  rw [isWritable, decide_eq_true_iff, Nat.pow_eq]

theorem readScalar_int {value : Int} (writable : isWritable value = true) (ends : NoNumber rest) :
    readScalar ((toString value).toList ++ rest) = .ok (.int value, rest) := by
  have short : (Nat.toDigits 10 value.natAbs).length ≤ maxDigits :=
    (Nat.length_toDigits_le_iff (by decide) (by decide)).mpr (isWritable_iff.mp writable)
  have text : (toString value).toList =
      (if decide (value < 0) = true then ['-'] else []) ++ Nat.toDigits 10 value.natAbs := by
    rw [Int.toString_eq_repr, Int.repr_eq_if]
    by_cases negative : value < 0
    · rw [if_neg (by omega), decide_eq_true negative, show (-value).toNat = value.natAbs by omega]
      simp
    · rw [if_pos (by omega), decide_eq_false negative, show value.toNat = value.natAbs by omega]
      simp
  have read := readNumber_whole (decide (value < 0)) (isWhole_toDigits value.natAbs) ends short
  have signed : (if decide (value < 0) = true then -(value.natAbs : Int) else value.natAbs) = value := by
    clear short
    split
    next negative =>
      have := of_decide_eq_true negative
      omega
    next positive =>
      have := mt decide_eq_true positive
      omega
  rw [digitsValue_toDigits, signed] at read
  rw [text, List.append_assoc, readScalar_of_number read]

theorem readScalar_float (value : Binary64) (ends : NoNumber rest) :
    readScalar ((floatText value).toList ++ rest) = .ok (.float value, rest) := by
  cases value with
  | nan => simp [floatText, readScalar, words, List.isPrefixOf]
  | infinite negative =>
    cases negative <;> simp [floatText, readScalar, words, List.isPrefixOf]
  | finite negative magnitude =>
    have sign : (if negative then "-" else "" : String).toList =
        if negative then ['-'] else [] := by
      cases negative <;> rfl
    simp only [floatText, Binary64.finiteText, String.toList_append, sign, List.append_assoc]
    by_cases zero : magnitude.mantissa = 0
    · have same : magnitude = .zero := by
        obtain ⟨mantissa, scale, canonical⟩ := magnitude
        obtain rfl : mantissa = 0 := zero
        obtain rfl : scale = 0 := canonical.2.2.resolve_right (by decide)
        rfl
      have read := readNumber_fraction negative (isWhole_toDigits 0) (AllDigits.zeros 1)
        (List.cons_ne_nil _ _) ends.noDigit (by rw [cutExponent?_none ends, Option.getD_none])
      rw [if_pos zero, same]
      exact readScalar_of_number read
    · have covers := Magnitude.shortest_covers zero
      have some : magnitude.shortest.digits ≠ 0 := by
        intro none
        have := covers.pos zero
        simp [Decimal.value, none] at this
      obtain ⟨decimal, same, read⟩ := readsAs_toText magnitude.shortest some negative ends
      rw [if_neg zero, readScalar_of_number read,
        Binary64.ofDecimal_eq negative zero (same ▸ covers)]

end scalars
end ToolGraph.Json
