import Mathlib.Tactic.SplitIfs
import ToolGraph.Json.Parser
import ToolGraph.Json.Printer

/-!
Quoted texts. Every character is read back from the characters it is written as, whether it is escaped
or not; a character is never a surrogate, so no two of them are read as one.
-/
namespace ToolGraph.Json
open Text

theorem hexDigit?_hexDigit : ∀ value < 16, hexDigit? (hexDigit value) = some value := by decide

section units
variable {rest : List Char}

theorem readUnits_unitEscape {code : Nat} (small : code < 0x10000) :
    readUnits (unitEscape code ++ rest) =
      (readUnits rest).map (fun read => (code :: read.1, read.2)) := by
  have digit : ∀ part : Nat, hexDigit? (hexDigit (part % 16)) = some (part % 16) := fun part =>
    hexDigit?_hexDigit _ (Nat.mod_lt _ (by decide))
  have sum : (((code / 16 / 16 / 16 % 16) * 16 + code / 16 / 16 % 16) * 16 + code / 16 % 16) * 16 +
      code % 16 = code := by omega
  simp only [unitEscape, hexDigits, List.nil_append, List.cons_append]
  rw [readUnits]
  simp only [digit, sum]

theorem readUnits_plain {c : Char} (quote : c ≠ '"') (backslash : c ≠ '\\') (large : ¬ c.toNat < 32) :
    readUnits (c :: rest) = (readUnits rest).map (fun read => (c.toNat :: read.1, read.2)) := by
  rw [readUnits.eq_def]
  split
  next none => exact absurd none (List.cons_ne_nil _ _)
  next same => exact absurd (List.cons.inj same).1 quote
  next same => exact absurd (List.cons.inj same).1 backslash
  next same => exact absurd (List.cons.inj same).1 backslash
  next same =>
    obtain ⟨rfl, rfl⟩ := List.cons.inj same
    rw [if_neg large]

/-- What a character is written as stands for its code. -/
theorem readUnits_charText (c : Char) :
    readUnits (charText false c ++ rest) =
      (readUnits rest).map (fun read => (c.toNat :: read.1, read.2)) := by
  have known : ∀ {code : Nat}, c.toNat = code → c = Char.ofNat code := fun same =>
    same ▸ (Char.ofNat_toNat c).symm
  unfold charText
  split_ifs with quote backslash feed turn tab back form control
  · subst quote
    rfl
  · subst backslash
    rfl
  · subst feed
    rfl
  · subst turn
    rfl
  · subst tab
    rfl
  · obtain rfl := known back
    rfl
  · obtain rfl := known form
    rfl
  · have small : c.toNat < 0x10000 := by
      rcases control with control | ⟨never, -⟩
      · omega
      · exact never.elim
    have plain : isSurrogate c = false := decide_eq_false (by unfold firstSurrogate; omega)
    rw [codeOf, plain, if_neg Bool.false_ne_true, codeEscape, if_pos small]
    exact readUnits_unitEscape small
  · exact readUnits_plain quote backslash (fun small => control (.inl small))

theorem readUnits_chars (chars : List Char) :
    readUnits (chars.flatMap (charText false) ++ '"' :: rest) =
      .ok (chars.map Char.toNat, rest) := by
  induction chars with
  | nil => rfl
  | cons c chars ih =>
    rw [List.flatMap_cons, List.append_assoc, readUnits_charText, ih]
    rfl

end units

theorem not_surrogate (c : Char) : ¬ (0xd800 ≤ c.toNat ∧ c.toNat < 0xe000) := by
  rintro ⟨low, high⟩
  rcases c.valid with below | ⟨above, -⟩
  · exact absurd low (Nat.not_le.mpr below)
  · exact absurd (show c.toNat ≤ 0xdfff by omega) (Nat.not_le.mpr above)

theorem ofUnit_toNat (c : Char) : ofUnit c.toNat = c := by
  rw [ofUnit, if_neg (not_surrogate c), Char.ofNat_toNat]

theorem ofUnits16_toNat (chars : List Char) : ofUnits16 (chars.map Char.toNat) = chars := by
  induction chars with
  | nil => rfl
  | cons first rest ih =>
    cases rest with
    | nil => simp only [List.map_cons, List.map_nil, ofUnits16, ofUnit_toNat]
    | cons second rest =>
      have single : ¬ (0xd800 ≤ first.toNat ∧ first.toNat < 0xdc00 ∧ 0xdc00 ≤ second.toNat ∧
          second.toNat < 0xe000) := fun pair => not_surrogate first ⟨pair.1, by omega⟩
      simp only [List.map_cons, ofUnits16] at ih ⊢
      rw [if_neg single, ofUnit_toNat, ih]

theorem readText_quoted (text : String) (rest : List Char) :
    readText (text.toList.flatMap (charText false) ++ '"' :: rest) = .ok (text, rest) := by
  unfold readText
  rw [readUnits_chars]
  simp only [Except.map, ofUnits16_toNat, String.ofList_toList]

end ToolGraph.Json
