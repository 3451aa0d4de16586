import ToolGraph.Document

/-!
Texts as bytes and back. What is encoded in UTF-8 is read back as the same text, whether or not
surrogates pass, and the bytes of a text hold those of each of its parts.
-/
namespace ToolGraph

namespace Text

/-! ### Bytes -/

section bytes
variable {base offset value : Nat} {bound : UInt8}

theorem toNat_toUInt8 (small : value < 256) : value.toUInt8.toNat = value := by
  simp [Nat.mod_eq_of_lt small]

theorem toUInt8_lt (small : value < 256) : value.toUInt8 < bound ↔ value < bound.toNat := by
  rw [UInt8.lt_iff_toNat_lt, toNat_toUInt8 small]

theorem not_lead_lt (fits : base + offset < 256) (above : bound.toNat ≤ base) :
    ¬ (base + offset).toUInt8 < bound := by
  rw [toUInt8_lt fits]
  omega

theorem continuation?_toUInt8 {bits : Nat} (small : bits < 0x40) :
    continuation? (0x80 + bits).toUInt8 = some bits := by
  have fits : 0x80 + bits < 256 := by omega
  have above : (0x80 : UInt8) ≤ (0x80 + bits).toUInt8 :=
    UInt8.not_lt.mp (not_lead_lt fits (by decide))
  have below : (0x80 + bits).toUInt8 < 0xc0 := (toUInt8_lt fits).mpr (Nat.add_lt_add_left small 0x80)
  rw [continuation?, if_pos ⟨above, below⟩, toNat_toUInt8 fits, Nat.add_sub_cancel_left]

end bytes

/-! ### Characters -/

theorem charOf?_toNat (surrogates : Bool) (c : Char) : charOf? surrogates c.toNat = some c := by
  rw [charOf?, if_pos (show c.toNat.isValidChar from c.valid), Char.ofNat_toNat]

theorem toNat_lt (c : Char) : c.toNat < 0x110000 := by
  have valid : c.toNat.isValidChar := c.valid
  simp only [Nat.isValidChar] at valid
  omega

section characters
variable {surrogates : Bool} {rest : Bytes} {c : Char} {high upper middle low : Nat}

theorem decodeUtf8?_one (small : c.toNat < 0x80) :
    decodeUtf8? surrogates (c.toNat.toUInt8 :: rest) = (decodeUtf8? surrogates rest).map (c :: ·) := by
  have fits : c.toNat < 256 := by omega
  have one : c.toNat.toUInt8 < 0x80 := (toUInt8_lt fits).mpr small
  rw [decodeUtf8?.eq_def]
  simp only [if_pos one, toNat_toUInt8 fits, Char.ofNat_toNat]

theorem decodeUtf8?_two (least : 2 ≤ high) (most : high < 0x20) (first : low < 0x40)
    (same : high * 0x40 + low = c.toNat) :
    decodeUtf8? surrogates ((0xc0 + high).toUInt8 :: (0x80 + low).toUInt8 :: rest) =
      (decodeUtf8? surrogates rest).map (c :: ·) := by
  have fits : 0xc0 + high < 256 := by omega
  have one : ¬ (0xc0 + high).toUInt8 < 0x80 := not_lead_lt fits (by decide)
  have none : ¬ (0xc0 + high).toUInt8 < 0xc2 := by
    rw [toUInt8_lt fits, show (0xc2 : UInt8).toNat = 0xc2 from rfl]
    omega
  have two : (0xc0 + high).toUInt8 < 0xe0 := (toUInt8_lt fits).mpr (Nat.add_lt_add_left most 0xc0)
  rw [decodeUtf8?.eq_def]
  simp only [if_neg one, if_neg none, if_pos two, continuation?_toUInt8 first, toNat_toUInt8 fits,
    Nat.add_sub_cancel_left, same, Char.ofNat_toNat]

theorem decodeUtf8?_three (most : high < 0x10) (second : middle < 0x40) (first : low < 0x40)
    (same : (high * 0x40 + middle) * 0x40 + low = c.toNat) (least : 0x800 ≤ c.toNat) :
    decodeUtf8? surrogates
        ((0xe0 + high).toUInt8 :: (0x80 + middle).toUInt8 :: (0x80 + low).toUInt8 :: rest) =
      (decodeUtf8? surrogates rest).map (c :: ·) := by
  have fits : 0xe0 + high < 256 := by omega
  have one : ¬ (0xe0 + high).toUInt8 < 0x80 := not_lead_lt fits (by decide)
  have none : ¬ (0xe0 + high).toUInt8 < 0xc2 := not_lead_lt fits (by decide)
  have two : ¬ (0xe0 + high).toUInt8 < 0xe0 := not_lead_lt fits (by decide)
  have three : (0xe0 + high).toUInt8 < 0xf0 := (toUInt8_lt fits).mpr (Nat.add_lt_add_left most 0xe0)
  rw [decodeUtf8?.eq_def]
  simp only [if_neg one, if_neg none, if_neg two, if_pos three, continuation?_toUInt8 second,
    continuation?_toUInt8 first, toNat_toUInt8 fits, Nat.add_sub_cancel_left, same,
    if_neg (Nat.not_lt.mpr least), charOf?_toNat]

theorem decodeUtf8?_four (most : high < 5) (third : upper < 0x40) (second : middle < 0x40)
    (first : low < 0x40) (same : ((high * 0x40 + upper) * 0x40 + middle) * 0x40 + low = c.toNat)
    (least : 0x10000 ≤ c.toNat) :
    decodeUtf8? surrogates ((0xf0 + high).toUInt8 :: (0x80 + upper).toUInt8 ::
        (0x80 + middle).toUInt8 :: (0x80 + low).toUInt8 :: rest) =
      (decodeUtf8? surrogates rest).map (c :: ·) := by
  have fits : 0xf0 + high < 256 := by omega
  have one : ¬ (0xf0 + high).toUInt8 < 0x80 := not_lead_lt fits (by decide)
  have none : ¬ (0xf0 + high).toUInt8 < 0xc2 := not_lead_lt fits (by decide)
  have two : ¬ (0xf0 + high).toUInt8 < 0xe0 := not_lead_lt fits (by decide)
  have three : ¬ (0xf0 + high).toUInt8 < 0xf0 := not_lead_lt fits (by decide)
  have four : (0xf0 + high).toUInt8 < 0xf5 := (toUInt8_lt fits).mpr (Nat.add_lt_add_left most 0xf0)
  have long : ¬ (c.toNat < 0x10000 ∨ 0xf5 ≤ (0xf0 + high).toUInt8) :=
    not_or.mpr ⟨Nat.not_lt.mpr least, UInt8.not_le.mpr four⟩
  rw [decodeUtf8?.eq_def]
  simp only [if_neg one, if_neg none, if_neg two, if_neg three, continuation?_toUInt8 third,
    continuation?_toUInt8 second, continuation?_toUInt8 first, toNat_toUInt8 fits,
    Nat.add_sub_cancel_left, same, if_neg long, charOf?_toNat]

/-- The bytes of a character are read as the character. -/
theorem decodeUtf8?_utf8Char :
    decodeUtf8? surrogates (utf8Char c ++ rest) = (decodeUtf8? surrogates rest).map (c :: ·) := by
  have below := toNat_lt c
  unfold utf8Char
  by_cases one : c.toNat < 0x80
  · simp only [if_pos one]
    exact decodeUtf8?_one one
  by_cases two : c.toNat < 0x800
  · simp only [if_neg one, if_pos two]
    exact decodeUtf8?_two (by omega) (by omega) (by omega) (by omega)
  by_cases three : c.toNat < 0x10000
  · simp only [if_neg one, if_neg two, if_pos three]
    exact decodeUtf8?_three (by omega) (by omega) (by omega) (by omega) (by omega)
  · simp only [if_neg one, if_neg two, if_neg three]
    exact decodeUtf8?_four (by omega) (by omega) (by omega) (by omega) (by omega) (by omega)

end characters

/-! ### Texts -/

theorem decodeUtf8?_encode (surrogates : Bool) (text : List Char) :
    decodeUtf8? surrogates (encode text) = some text := by
  induction text with
  | nil => rfl
  | cons c text ih =>
    rw [encode, List.flatMap_cons, decodeUtf8?_utf8Char]
    exact congrArg (Option.map (c :: ·)) ih

theorem encode_append (one two : List Char) : encode (one ++ two) = encode one ++ encode two :=
  List.flatMap_append

theorem detect_brace (rest : Bytes) : detect (0x7b :: 0x0a :: rest) = (.utf8, 0x7b :: 0x0a :: rest) := by
  cases rest with
  | nil => rfl
  | cons byte rest => cases rest <;> rfl

/-- A text that starts with a brace and a line feed is read back whatever else it holds. -/
theorem decodeDetected?_encode (text : List Char) :
    decodeDetected? (encode ('\x7b' :: '\n' :: text)) = some ('\x7b' :: '\n' :: text) := by
  have shown : detect (encode ('\x7b' :: '\n' :: text)) = (.utf8, encode ('\x7b' :: '\n' :: text)) :=
    detect_brace (encode text)
  rw [decodeDetected?, shown]
  exact decodeUtf8?_encode true _

end Text

/-! ### Parts -/

namespace Document

theorem holds_append (before part after : Bytes) : holds part (before ++ part ++ after) = true := by
  induction before with
  | nil =>
    cases part with
    | nil => cases after <;> rfl
    | cons byte part =>
      simp only [List.nil_append, List.cons_append, holds, Bool.or_eq_true]
      exact .inl (List.isPrefixOf_iff_prefix.mpr (List.prefix_append (byte :: part) after))
  | cons byte before ih =>
    simp only [List.cons_append, holds, ih, Bool.or_true]

theorem holds_encode (before part after : List Char) :
    holds (Text.encode part) (Text.encode (before ++ part ++ after)) = true := by
  rw [Text.encode_append, Text.encode_append]
  exact holds_append _ _ _

end Document
end ToolGraph
