import ToolGraph.Pointer
import ToolGraph.Proofs.Lists
import ToolGraph.Proofs.Number.Numeral

/-!
Pointers as they are written. The way to each part of a document, along keys and positions, can be
written as a pointer, and the pointer leads to that part: escaping a key is undone, whatever characters
the key has.
-/
namespace ToolGraph.Pointer
open Text Number

/-! ### Escapes -/

/-- Each tilde with `mark` behind it becomes the character, from left to right. -/
def replace (mark char : Char) : List Char → List Char
  | [] => []
  | [c] => [c]
  | c :: d :: rest =>
    if c = '~' ∧ d = mark then char :: replace mark char rest else c :: replace mark char (d :: rest)

/-- Each occurrence of the character becomes a tilde with `mark` behind it. -/
def spell (mark char : Char) (text : List Char) : List Char :=
  text.flatMap fun c => if c = char then ['~', mark] else [c]

/-- A key as it is written in a pointer: first the tildes are spelled out, then the slashes. -/
def escape (key : List Char) : List Char := spell '1' '/' (spell '0' '~' key)

section escapes
variable {mark char c d : Char} {rest : List Char}

theorem replace_cons (other : c = '~' → ∀ d ∈ rest.head?, d ≠ mark) :
    replace mark char (c :: rest) = c :: replace mark char rest := by
  cases rest with
  | nil => rfl
  | cons d rest =>
    rw [replace, if_neg]
    rintro ⟨same, found⟩
    exact other same d rfl found

theorem replace_escaped (mark char : Char) (rest : List Char) :
    replace mark char ('~' :: mark :: rest) = char :: replace mark char rest := by
  rw [replace, if_pos ⟨rfl, rfl⟩]

theorem head?_replace (found : (replace mark char rest).head? = some d) :
    d = char ∨ rest.head? = some d := by
  cases rest with
  | nil => cases found
  | cons c rest =>
    cases rest with
    | nil => exact .inr found
    | cons e rest =>
      rw [replace] at found
      split at found
      · exact .inl (Option.some.inj found).symm
      · exact .inr found

theorem unescape_eq (text : List Char) : unescape text = replace '0' '~' (replace '1' '/' text) := by
  fun_induction unescape text with
  | case1 => rfl
  | case2 rest ih =>
    rw [replace_escaped, replace_cons (by simp), ih]
  | case3 rest ih =>
    rw [replace_cons (by simp), replace_cons (c := '0') (by simp), replace_escaped, ih]
  | case4 c rest slash tilde ih =>
    -- The second replacement may meet a tilde that the first one left, but no new one.
    have noSlash : c = '~' → ∀ d ∈ rest.head?, d ≠ '1' := by
      rintro rfl d known rfl
      obtain ⟨rest, rfl⟩ := List.head?_eq_some_iff.mp known
      exact slash rest rfl rfl
    have noTilde : c = '~' → ∀ d ∈ (replace '1' '/' rest).head?, d ≠ '0' := by
      rintro rfl d known rfl
      rcases head?_replace known with other | known
      · cases other
      · obtain ⟨rest, rfl⟩ := List.head?_eq_some_iff.mp known
        exact tilde rest rfl rfl
    rw [replace_cons noSlash, replace_cons noTilde, ih]

theorem spell_cons_self (rest : List Char) :
    spell mark c (c :: rest) = '~' :: mark :: spell mark c rest := by
  simp [spell]

theorem spell_cons (other : c ≠ char) : spell mark char (c :: rest) = c :: spell mark char rest := by
  simp [spell, other]

theorem replace_spell_tilde (key : List Char) : replace '0' '~' (spell '0' '~' key) = key := by
  induction key with
  | nil => rfl
  | cons c key ih =>
    by_cases tilde : c = '~'
    · rw [tilde, spell_cons_self, replace_escaped, ih]
    · rw [spell_cons tilde, replace_cons fun same => absurd same tilde, ih]

theorem replace_escape (key : List Char) : replace '1' '/' (escape key) = spell '0' '~' key := by
  induction key with
  | nil => rfl
  | cons c key ih =>
    unfold escape at ih ⊢
    by_cases tilde : c = '~'
    · rw [tilde, spell_cons_self, spell_cons (by decide), spell_cons (by decide),
        replace_cons (by simp), replace_cons (by simp), ih]
    · rw [spell_cons tilde]
      by_cases slash : c = '/'
      · rw [slash, spell_cons_self, replace_escaped, ih]
      · rw [spell_cons slash, replace_cons fun same => absurd same tilde, ih]

theorem unescape_escape (key : List Char) : unescape (escape key) = key := by
  rw [unescape_eq, replace_escape, replace_spell_tilde]

theorem slash_not_mem_escape (key : List Char) : '/' ∉ escape key := by
  intro member
  obtain ⟨c, -, own⟩ := List.mem_flatMap.mp member
  split at own
  · simp at own
  next other => exact other (List.mem_singleton.mp own).symm

theorem replace_free {text : List Char} (free : '~' ∉ text) : replace mark char text = text := by
  induction text with
  | nil => rfl
  | cons c text ih =>
    rw [List.mem_cons, not_or] at free
    rw [replace_cons fun same => absurd same.symm free.1, ih free.2]

end escapes

/-! ### Segments -/

/-- The pointer of segments as they are written. -/
def ofPieces (pieces : List (List Char)) : String := String.ofList ('#' :: '/' :: joinWith ['/'] pieces)

def segment (piece : List Char) : String := String.ofList (replace '0' '~' (replace '1' '/' piece))

/-- The segments are those of the pointer, between slashes behind `#/`. -/
def Reads (pointer : String) (segments : List String) : Prop :=
  ∃ pieces, pieces ≠ [] ∧ (∀ piece ∈ pieces, '/' ∉ piece) ∧ pointer = ofPieces pieces ∧
    segments = pieces.map segment

theorem segments?_eq_some {pointer : String} {segments : List String} :
    segments? pointer = some segments ↔ Reads pointer segments := by
  have same : (fun piece => String.ofList (unescape piece)) = segment := by
    funext piece
    rw [unescape_eq, segment]
  constructor
  · intro read
    unfold segments? at read
    split at read
    next rest start =>
      obtain rfl := Option.some.inj read
      refine ⟨splitAt '/' rest, splitAt_ne_nil _ _, fun _ => not_mem_of_mem_splitAt, ?_, by rw [same]⟩
      rw [ofPieces, joinWith_splitAt, ← start, String.ofList_toList]
    next => cases read
  · rintro ⟨pieces, some, free, rfl, rfl⟩
    rw [segments?, ofPieces, String.toList_ofList]
    change Option.some ((splitAt '/' (joinWith ['/'] pieces)).map _) = _
    rw [splitAt_joinWith some free, same]

/-! ### Ways into a document -/

/-- A turn on the way into a document: to the value under a key or to the item at a position. -/
inductive Turn where
  | key (name : String)
  | item (index : Nat)

namespace Turn

def take? : (turn : Turn) → (value : Value) → Option Value
  | .key name, .map entries => Value.entry? entries (.text name)
  | .item index, .list items => items[index]?
  | _, _ => none

def written : Turn → List Char
  | .key name => escape name.toList
  | .item index => (toString index).toList

def text : Turn → String
  | .key name => name
  | .item index => toString index

end Turn

def reach? (value : Value) : (way : List Turn) → Option Value
  | [] => some value
  | turn :: way => (turn.take? value).bind (reach? · way)

/-- The pointer that writes a way down. -/
def ofWay (way : List Turn) : String := ofPieces (way.map Turn.written)

/-! ### Steps -/

section steps
variable {pointer segment : String} {entries : List (Value × Value)} {items : List Value} {next : Value}

theorem step_map_eq_ok : step pointer (.map entries) segment = .ok next ↔
    Value.entry? entries (.text segment) = some next := by
  simp only [step]
  cases Value.entry? entries (.text segment) <;> simp

theorem step_list_eq_ok : step pointer (.list items) segment = .ok next ↔
    ∃ number, readInt? segment.toList = some number ∧ itemAt? items number = some next := by
  simp only [step]
  cases readInt? segment.toList with
  | none => simp
  | some number => cases found : itemAt? items number <;> simp [found]

end steps

theorem readInt?_toString {index : Nat} {number : Int} :
    readInt? (toString index).toList = some number ↔ index < 10 ^ maxDigits ∧ number = index := by
  have digits : (toString index).toList = Nat.toDigits 10 index := by simp
  rw [digits, readInt?_digits (allDigits_toDigits index) Nat.toDigits_ne_nil, digitsValue_toDigits,
    Nat.length_toDigits_le_iff (by decide) (by decide)]

/-- A turn that can be made is made by its segment, if that can be read. -/
theorem Turn.step_eq_ok {turn : Turn} {value inner next : Value} (pointer : String)
    (leads : turn.take? value = some inner) : step pointer value turn.text = .ok next ↔
      (∀ index, .item index = turn → index < 10 ^ maxDigits) ∧ next = inner := by
  cases turn with
  | key name =>
    cases value with
    | map entries =>
      have found : Value.entry? entries (.text name) = some inner := leads
      rw [text, step_map_eq_ok, found, Option.some.injEq, eq_comm]
      exact (and_iff_right fun _ none => nomatch none).symm
    | _ => cases leads
  | item index =>
    cases value with
    | list items =>
      have found : items[index]? = some inner := leads
      rw [text, step_list_eq_ok]
      simp only [readInt?_toString, and_assoc, exists_and_left, exists_eq_left, itemAt?_natCast, found,
        Option.some.injEq, item.injEq, forall_eq, eq_comm (a := inner)]
    | _ => cases leads

theorem foldlM_step {value last : Value} {way : List Turn} (pointer : String)
    (leads : reach? value way = some last) :
    (way.map Turn.text).foldlM (step pointer) value = .ok last ↔
      ∀ index, .item index ∈ way → index < 10 ^ maxDigits := by
  induction way generalizing value with
  | nil =>
    obtain rfl := Option.some.inj leads
    exact iff_of_true rfl (by simp)
  | cons turn way ih =>
    obtain ⟨inner, turned, leads⟩ := Option.bind_eq_some_iff.mp leads
    rw [List.map_cons, List.foldlM_cons, bind_eq_ok]
    simp only [turn.step_eq_ok pointer turned, and_assoc, exists_and_left, exists_eq_left, ih leads,
      List.mem_cons, or_imp, forall_and]

theorem mem_toString {index : Nat} {c : Char} (member : c ∈ (toString index).toList) :
    isAsciiDigit c = true := by
  rw [show (toString index).toList = Nat.toDigits 10 index by simp] at member
  exact allDigits_toDigits index c member

theorem segment_written (turn : Turn) : segment turn.written = turn.text := by
  cases turn with
  | key name => rw [segment, Turn.written, ← unescape_eq, unescape_escape, String.ofList_toList]; rfl
  | item index =>
    have free : '~' ∉ (toString index).toList := fun member => absurd (mem_toString member) (by decide)
    rw [segment, Turn.written, replace_free free, replace_free free, String.ofList_toList]
    rfl

theorem slash_not_mem_written (turn : Turn) : '/' ∉ turn.written := by
  cases turn with
  | key name => exact slash_not_mem_escape _
  | item index => exact fun member => absurd (mem_toString member) (by decide)

/-- The pointer of a way leads where the way does. Only a position of more digits than a number may have
is not read, and no list in a memory is so long. -/
theorem follow_ofWay {root value : Value} {way : List Turn} (some : way ≠ [])
    (leads : reach? root way = Option.some value) :
    follow root (ofWay way) = .ok value ↔ ∀ index, .item index ∈ way → index < 10 ^ maxDigits := by
  have free : ∀ piece ∈ way.map Turn.written, '/' ∉ piece :=
    List.forall_mem_map.mpr fun turn _ => slash_not_mem_written turn
  have texts : (way.map Turn.written).map segment = way.map Turn.text := by
    rw [List.map_map]
    exact List.map_congr_left fun turn _ => segment_written turn
  have read : segments? (ofWay way) = Option.some (way.map Turn.text) :=
    segments?_eq_some.mpr ⟨_, by simpa using some, free, rfl, texts.symm⟩
  rw [follow, read]
  exact foldlM_step _ leads

/-- A document with keys of every kind: empty, with escapes of their own, and of digits. -/
def attic : Value :=
  .map [(.text "", .list [.null, .map [(.text "~1/", .map [(.text "0", .int 5), (.text "/1", .int 6)])]])]

theorem attic_way :
    reach? attic [.key "", .item 1, .key "~1/", .key "0"] = some (.int 5) ∧
      ofWay [.key "", .item 1, .key "~1/", .key "0"] = "#//1/~01~1/0" ∧
      follow attic "#//1/~01~1/0" = .ok (.int 5) := by
  have leads : reach? attic [.key "", .item 1, .key "~1/", .key "0"] = some (.int 5) := rfl
  have written : ofWay [.key "", .item 1, .key "~1/", .key "0"] = "#//1/~01~1/0" := by decide
  refine ⟨leads, written, ?_⟩
  rw [← written, follow_ofWay (by simp) leads]
  intro index member
  obtain rfl : index = 1 := by simpa using member
  exact Nat.one_lt_pow (by decide) (by decide)

end ToolGraph.Pointer
