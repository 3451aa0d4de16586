import Mathlib.Data.List.Infix
import ToolGraph.Proofs.Text.Utf8

/-!
Words that stand in a text as they are. Where a reader only folds white space and drops marks, each word
of letters in what it returns stands in its source; and the bytes of a text in UTF-8 hold those of its
words, byte by byte.
-/
namespace ToolGraph

namespace Text

/-- Every word of letters in the text stands in the source as well, unless the source has escapes. -/
def Shows (source text : List Char) : Prop :=
  '\\' ∉ source → ∀ word : List Char, (∀ c ∈ word, c.isAlpha = true) → word <:+: text → word <:+: source

/-- Marks and white space: no letter is among the characters. -/
def IsJoint (text : List Char) : Prop := ∀ c ∈ text, c.isAlpha = false

section shows
variable {source text more : List Char}

theorem Shows.of_part (part : text <:+: source) : Shows source text :=
  fun _ _ _ inside => inside.trans part

theorem Shows.of_escape (escape : '\\' ∈ source) : Shows source text :=
  fun none => absurd escape none

theorem IsJoint.shows (joint : IsJoint text) : Shows source text := by
  intro _ word letters inside
  cases word with
  | nil => exact List.nil_infix
  | cons c word =>
    have mark := joint c (inside.subset List.mem_cons_self)
    simp [letters c List.mem_cons_self] at mark

theorem IsJoint.nil : IsJoint [] := fun _ member => by cases member

theorem Shows.append (shows : Shows source text) (shows' : Shows source more)
    (apart : ∀ c ∈ more.head?, c.isAlpha = false) : Shows source (text ++ more) := by
  intro none word letters inside
  rcases List.infix_append_iff.mp inside with first | later | ⟨front, back, rfl, ends, begins⟩
  · exact shows none word letters first
  · exact shows' none word letters later
  · cases back with
    | nil => exact shows none _ letters ((List.append_nil front).symm ▸ ends.isInfix)
    | cons c back =>
      obtain ⟨rest, same⟩ := begins
      have mark := apart c (by rw [← same]; rfl)
      simp [letters c (by simp)] at mark

theorem Shows.append_joint {joint : List Char} (shows : Shows source text) (marks : IsJoint joint) :
    Shows source (text ++ joint) :=
  shows.append marks.shows fun c first => marks c (List.mem_of_mem_head? first)

theorem Shows.behind {joint : List Char} (shows : Shows source text) (marks : IsJoint joint) :
    Shows source (joint ++ text) := by
  intro none word letters inside
  rcases List.infix_append_iff.mp inside with first | later | ⟨front, back, rfl, ends, begins⟩
  · exact marks.shows none word letters first
  · exact shows none word letters later
  · cases front with
    | nil => exact shows none _ letters begins.isInfix
    | cons c front =>
      have mark := marks c (ends.subset List.mem_cons_self)
      simp [letters c (by simp)] at mark

theorem Shows.join {joint : List Char} (shows : Shows source text) (shows' : Shows source more)
    (marks : IsJoint joint) (some : joint ≠ []) : Shows source (text ++ joint ++ more) := by
  obtain ⟨c, joint, rfl⟩ := List.exists_cons_of_ne_nil some
  rw [List.append_assoc]
  refine shows.append (shows'.behind marks) fun d first => ?_
  obtain rfl : c = d := Option.some.inj first
  exact marks c List.mem_cons_self

end shows

/-! ### Words in bytes -/

theorem toNat_ofNat_of_valid {code : Nat} (valid : code.isValidChar) :
    (Char.ofNat code).toNat = code := by
  rw [Char.ofNat, dif_pos valid]
  rfl

theorem toNat_ofSurrogate {code : Nat} (range : 0xd800 ≤ code ∧ code < 0xe000) :
    (ofSurrogate code).toNat = firstSurrogate + (code - 0xd800) := by
  refine toNat_ofNat_of_valid (.inr ?_)
  unfold firstSurrogate
  omega

theorem toNat_ge_of_charOf? {surrogates : Bool} {code : Nat} {c : Char}
    (found : charOf? surrogates code = some c) (least : 0x80 ≤ code) : 0x80 ≤ c.toNat := by
  unfold charOf? at found
  split at found
  next valid =>
    obtain rfl := Option.some.inj found
    rwa [toNat_ofNat_of_valid valid]
  next =>
    split at found
    next range =>
      obtain rfl := Option.some.inj found
      simp only [Bool.and_eq_true, decide_eq_true_eq] at range
      rw [toNat_ofSurrogate ⟨range.1.2, range.2⟩]
      exact Nat.le_add_right_of_le (by decide)
    next => cases found

theorem continuation?_lt {byte : UInt8} {bits : Nat} (found : continuation? byte = some bits) :
    bits < 0x40 := by
  unfold continuation? at found
  split at found
  next range =>
    obtain rfl := Option.some.inj found
    have below : byte.toNat < 0xc0 := UInt8.lt_iff_toNat_lt.mp range.2
    omega
  next => cases found

theorem head_of_map_cons {surrogates : Bool} {rest : Bytes} {c d : Char} {text : List Char}
    (read : (decodeUtf8? surrogates rest).map (d :: ·) = some (c :: text)) :
    d = c ∧ decodeUtf8? surrogates rest = some text := by
  obtain ⟨later, known, same⟩ := Option.map_eq_some_iff.mp read
  obtain ⟨rfl, rfl⟩ := List.cons.inj same
  exact ⟨rfl, known⟩

theorem decodeUtf8?_ascii {surrogates : Bool} {a : UInt8} (small : a < 0x80) (rest : Bytes) :
    decodeUtf8? surrogates (a :: rest) = (decodeUtf8? surrogates rest).map (Char.ofNat a.toNat :: ·) := by
  rw [decodeUtf8?.eq_def]
  simp only [if_pos small]

theorem decodeUtf8?_long {surrogates : Bool} {a : UInt8} {rest : Bytes} {c : Char} {text : List Char}
    (large : ¬ a < 0x80) (read : decodeUtf8? surrogates (a :: rest) = some (c :: text)) :
    ∃ own later, a :: rest = own ++ later ∧ decodeUtf8? surrogates later = some text ∧ 0x80 ≤ c.toNat := by
  rw [decodeUtf8?.eq_def] at read
  simp only [if_neg large] at read
  split at read
  next => cases read
  next least =>
  have least : 0xc2 ≤ a.toNat := by simpa [UInt8.lt_iff_toNat_lt] using least
  split at read
  next => cases read
  next b rest =>
  split at read
  next => cases read
  next bits found =>
  have below := continuation?_lt found
  split at read
  next two =>
    obtain ⟨rfl, known⟩ := head_of_map_cons read
    have most : a.toNat < 0xe0 := UInt8.lt_iff_toNat_lt.mp two
    refine ⟨[a, b], rest, rfl, known, ?_⟩
    rw [toNat_ofNat_of_valid (.inl (by omega))]
    omega
  next =>
  split at read
  next => cases read
  next c rest =>
  split at read
  next => cases read
  next =>
  split at read
  next three =>
    split at read
    next => cases read
    next long =>
    split at read
    next => cases read
    next known found =>
    obtain ⟨rfl, later⟩ := head_of_map_cons read
    exact ⟨[a, b, c], rest, rfl, later, toNat_ge_of_charOf? found (by omega)⟩
  next =>
  split at read
  next => cases read
  next d rest =>
  split at read
  next => cases read
  next =>
  split at read
  next => cases read
  next long =>
  split at read
  next => cases read
  next known found =>
  obtain ⟨rfl, later⟩ := head_of_map_cons read
  rw [not_or] at long
  exact ⟨[a, b, c, d], rest, rfl, later, toNat_ge_of_charOf? found (by omega)⟩

/-- Bytes that are read begin with those of the first character. An ASCII character has one of its own
code. -/
theorem decodeUtf8?_eq_cons {surrogates : Bool} {bytes : Bytes} {c : Char} {text : List Char}
    (read : decodeUtf8? surrogates bytes = some (c :: text)) :
    ∃ own rest, bytes = own ++ rest ∧ decodeUtf8? surrogates rest = some text ∧
      (own = utf8Char c ∨ 0x80 ≤ c.toNat) := by
  cases bytes with
  | nil => cases read
  | cons a rest =>
    by_cases small : a < 0x80
    · rw [decodeUtf8?_ascii small] at read
      obtain ⟨rfl, known⟩ := head_of_map_cons read
      have code : a.toNat < 0x80 := UInt8.lt_iff_toNat_lt.mp small
      have same : (Char.ofNat a.toNat).toNat = a.toNat := toNat_ofNat_of_valid (.inl (by omega))
      refine ⟨[a], rest, rfl, known, .inl ?_⟩
      rw [utf8Char, same, if_pos code]
      simp
    · obtain ⟨own, later, same, known, large⟩ := decodeUtf8?_long small read
      exact ⟨own, later, same, known, .inr large⟩

section words
variable {surrogates : Bool} {bytes : Bytes} {text word : List Char}

theorem prefix_of_decodeUtf8? (ascii : ∀ c ∈ word, c.toNat < 0x80)
    (read : decodeUtf8? surrogates bytes = some (word ++ text)) : encode word <+: bytes := by
  induction word generalizing bytes with
  | nil => exact List.nil_prefix
  | cons c word ih =>
    obtain ⟨small, ascii⟩ := List.forall_mem_cons.mp ascii
    obtain ⟨own, rest, rfl, later, same | large⟩ := decodeUtf8?_eq_cons read
    · rw [encode, List.flatMap_cons, same]
      exact (List.prefix_append_right_inj _).mpr (ih ascii later)
    · omega

theorem infix_of_decodeUtf8? (ascii : ∀ c ∈ word, c.toNat < 0x80)
    (read : decodeUtf8? surrogates bytes = some text) (inside : word <:+: text) :
    encode word <:+: bytes := by
  obtain ⟨front, back, rfl⟩ := inside
  induction front generalizing bytes with
  | nil => exact (prefix_of_decodeUtf8? ascii read).isInfix
  | cons c front ih =>
    obtain ⟨own, rest, rfl, later, -⟩ := decodeUtf8?_eq_cons read
    exact (ih later).trans (List.suffix_append own rest).isInfix

end words
end Text

namespace Document

theorem holds_eq_true_iff {part bytes : Bytes} : holds part bytes = true ↔ part <:+: bytes := by
  constructor
  · intro held
    induction bytes with
    | nil => exact List.isEmpty_iff.mp held ▸ List.nil_infix
    | cons byte bytes ih =>
      simp only [holds, Bool.or_eq_true, List.isPrefixOf_iff_prefix] at held
      exact held.elim List.IsPrefix.isInfix
        (fun later => (ih later).trans (List.suffix_cons byte bytes).isInfix)
  · rintro ⟨before, after, rfl⟩
    exact holds_append before part after

end Document
end ToolGraph
