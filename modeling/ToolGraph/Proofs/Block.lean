import Std.Data.String.ToInt
import ToolGraph.Block.Parser
import ToolGraph.Proofs.Entries
import ToolGraph.Proofs.Lists

/-!
The tools of native sources. Each one is known by the line it starts on, which no other tool of the
source starts on, and the names of a source lead to its own tools.
-/
namespace ToolGraph

namespace Text

theorem lowerChar_ne_nil (c : Char) : lowerChar c ≠ [] := by
  unfold lowerChar
  split
  · simp
  · split <;> simp

theorem lower_ne_empty {text : String} (some : text ≠ "") : lower text ≠ "" := by
  intro empty
  have chars : lowerFrom [] text.toList = [] := by simpa [lower] using congrArg String.toList empty
  cases known : text.toList with
  | nil => exact some (by simpa using congrArg String.ofList known)
  | cons c rest =>
    rw [known, lowerFrom, List.append_eq_nil_iff] at chars
    have first := chars.1
    split at first
    · simp at first
    · exact lowerChar_ne_nil c first

end Text

namespace Block
open Entries

/-! ### Ids -/

theorem toList_idAt (location : String) (line : Int) :
    (idAt location line).toList = location.toList ++ ':' :: line.repr.toList := by
  change (location ++ ":" ++ line.repr).toList = _
  simp

theorem colon_not_mem_repr (line : Int) : ':' ∉ line.repr.toList := by
  have plain : ∀ value : Nat, ':' ∉ value.repr.toList := by
    intro value member
    rw [Nat.toList_repr] at member
    exact absurd (Nat.isDigit_of_mem_toDigits (by decide) (by decide) member) (by decide)
  cases line with
  | ofNat value => exact plain value
  | negSucc value =>
    change ':' ∉ ("-" ++ (value + 1).repr).toList
    simpa using plain (value + 1)

theorem append_cons_inj {α : Type} {mark : α} {one two first second : List α}
    (apart : mark ∉ first) (apart' : mark ∉ second)
    (same : one ++ mark :: first = two ++ mark :: second) : one = two ∧ first = second := by
  rcases List.append_eq_append_iff.mp same with ⟨middle, left, right⟩ | ⟨middle, left, right⟩
  · cases middle with
    | nil => exact ⟨by simpa using left.symm, by simpa using right⟩
    | cons head rest =>
      obtain ⟨rfl, tail⟩ := List.cons_eq_cons.mp right
      exact absurd (tail ▸ List.mem_append_right rest List.mem_cons_self) apart
  · cases middle with
    | nil => exact ⟨by simpa using left, by simpa using right.symm⟩
    | cons head rest =>
      obtain ⟨rfl, tail⟩ := List.cons_eq_cons.mp right
      exact absurd (tail ▸ List.mem_append_right rest List.mem_cons_self) apart'

theorem colon_mem_idAt (location : String) (line : Int) : ':' ∈ (idAt location line).toList := by
  rw [toList_idAt]
  exact List.mem_append_right _ List.mem_cons_self

theorem idAt_inj {one two : String} {first second : Int} (same : idAt one first = idAt two second) :
    one = two ∧ first = second := by
  have lists := congrArg String.toList same
  rw [toList_idAt, toList_idAt] at lists
  obtain ⟨locations, lines⟩ :=
    append_cons_inj (colon_not_mem_repr first) (colon_not_mem_repr second) lists
  exact ⟨String.toList_inj.mp locations, Int.repr_injective (String.toList_inj.mp lines)⟩

/-! ### Lines -/

theorem readLines_increasing {location : String} {line : Int} {block : Block} {inHeader : Bool}
    {texts : List (List Char)} {blocks : List Block} (before : block.start ≤ line)
    (parsed : readLines location line block inHeader texts = .ok blocks) :
    (∀ other ∈ blocks, block.start ≤ other.start) ∧ blocks.Pairwise (·.start < ·.start) := by
  induction texts generalizing line block inHeader blocks with
  | nil =>
    obtain rfl := Except.ok.inj parsed
    simp
  | cons text rest ih =>
    unfold readLines at parsed
    split at parsed
    next =>
      cases later : readLines location (line + 1) (opened (line + 1)) true rest with
      | error error => simp [later, Except.map] at parsed
      | ok others =>
        simp only [later, Except.map, Except.ok.injEq] at parsed
        obtain ⟨above, apart⟩ := ih (Int.le_refl (line + 1)) later
        have above : ∀ other ∈ others, line + 1 ≤ other.start := above
        subst parsed
        refine ⟨?_, List.pairwise_cons.mpr ⟨?_, apart⟩⟩
        · intro other member
          rcases List.mem_cons.mp member with rfl | member
          · exact Int.le_refl _
          · have := above other member
            omega
        · intro other member
          have := above other member
          omega
    next =>
      split at parsed
      next => exact ih (by omega) parsed
      next =>
        split at parsed
        next entry found =>
          split at parsed
          next header added => exact @ih _ { block with header } _ _ (Int.le_add_one before) parsed
          next => simp at parsed
        next =>
          exact @ih _ { block with body := block.body ++ [text] } _ _ (Int.le_add_one before) parsed

theorem readAll_increasing {content location : String} {firstLine : Int} {blocks : List Block}
    (parsed : readAll content location firstLine = .ok blocks) :
    blocks.Pairwise (·.start < ·.start) := by
  unfold readAll at parsed
  cases read : readLines location firstLine (opened firstLine) true (Text.lines content.toList) with
  | error error => simp [read, Except.map] at parsed
  | ok all =>
    simp only [read, Except.map, Except.ok.injEq] at parsed
    rw [← parsed]
    exact (readLines_increasing (Int.le_refl firstLine) read).2.filter _

/-! ### Names -/

def name (block : Block) : String := block.header.name.getD ""

/-- The table of names lists the named blocks, each under its name, and nothing else is new in it. It
has each name once. -/
theorem localNames_spec {location : String} {names found : Entries String String}
    {blocks : List Block} (named : localNames location names blocks = .ok found) :
    (∀ entry ∈ found, entry ∈ names ∨
      ∃ block ∈ blocks, entry = (Text.lower block.name, idAt location block.start)) ∧
      (∀ {key id}, names.get? key = some id → found.get? key = some id) ∧
      (∀ block ∈ blocks, block.name ≠ "" →
        found.get? (Text.lower block.name) = some (idAt location block.start)) ∧
      (names.keys.Nodup → found.keys.Nodup) := by
  induction blocks generalizing names with
  | nil =>
    obtain rfl := Except.ok.inj named
    exact ⟨fun entry member => .inl member, id, by simp, id⟩
  | cons block blocks ih =>
    simp only [localNames] at named
    split at named
    next nameless =>
      obtain ⟨entries, kept, listed, apart⟩ := ih named
      refine ⟨?_, kept, ?_, apart⟩
      · intro entry member
        exact (entries entry member).imp_right
          (fun ⟨other, known, same⟩ => ⟨other, List.mem_cons_of_mem _ known, same⟩)
      · intro other member some
        rcases List.mem_cons.mp member with rfl | member
        · exact absurd (by simpa [name] using nameless) some
        · exact listed other member some
    next =>
      split at named
      next => simp at named
      next fresh =>
        obtain ⟨entries, kept, listed, apart⟩ := ih named
        have fresh : names.get? (Text.lower block.name) = none :=
          get?_eq_none_iff.mpr (has_eq_false_iff.mp (Bool.not_eq_true _ ▸ fresh))
        refine ⟨?_, fun {key id} known => kept ?_, ?_, fun distinct => apart (nodup_put distinct _ _)⟩
        · intro entry member
          rcases entries entry member with old | ⟨other, known, same⟩
          · rcases mem_put old with rfl | old
            · exact .inr ⟨block, List.mem_cons_self, rfl⟩
            · exact .inl old
          · exact .inr ⟨other, List.mem_cons_of_mem _ known, same⟩
        · rw [get?_put, if_neg]
          · exact known
          · rintro rfl
            exact absurd (fresh.symm.trans known) (by simp)
        · intro other member some
          rcases List.mem_cons.mp member with rfl | member
          · exact kept (by rw [get?_put]; exact if_pos rfl)
          · exact listed other member some

/-- What the parser makes of content: it reads blocks, at least one, gathers their names, and makes a
tool of each block with the names of all. -/
theorem exists_blocks_of_parse {content location workingDir model : String} {firstLine : Int}
    {tools : List Tool} (parsed : parse content location workingDir model firstLine = .ok tools) :
    ∃ (first : Block) (blocks : List Block) (names : Entries String String),
      readAll content location firstLine = .ok (first :: blocks) ∧
      localNames location [] (first :: blocks) = .ok names ∧
      tools = (first :: blocks).map
        (tool location workingDir model (names.put "" (idAt location first.start))) := by
  unfold parse at parsed
  obtain ⟨all, read, parsed⟩ := bind_eq_ok.mp parsed
  cases all with
  | nil => exact absurd parsed throw_ne_ok
  | cons first blocks =>
    obtain ⟨names, named, parsed⟩ := bind_eq_ok.mp parsed
    exact ⟨first, blocks, names, read, named, (pure_eq_ok.mp parsed).symm⟩

theorem parse_eq_ok {content location workingDir model : String} {firstLine : Int}
    {tools : List Tool} (parsed : parse content location workingDir model firstLine = .ok tools) :
    ∃ (first : Block) (blocks : List Block) (localTools : Entries String String),
      (first :: blocks).Pairwise (·.start < ·.start) ∧
      (∀ entry ∈ localTools, entry = ("", idAt location first.start) ∨
        ∃ block ∈ first :: blocks, entry = (Text.lower block.name, idAt location block.start)) ∧
      (∀ block ∈ first :: blocks, block.name ≠ "" →
        localTools.get? (Text.lower block.name) = some (idAt location block.start)) ∧
      localTools.keys.Nodup ∧
      tools = (first :: blocks).map (tool location workingDir model localTools) := by
  obtain ⟨first, blocks, names, read, named, same⟩ := exists_blocks_of_parse parsed
  obtain ⟨entries, -, listed, apart⟩ := localNames_spec named
  refine ⟨first, blocks, names.put "" (idAt location first.start), readAll_increasing read, ?_, ?_,
    nodup_put (apart List.nodup_nil) _ _, same⟩
  · intro entry member
    rcases mem_put member with rfl | old
    · exact .inl rfl
    · exact .inr ((entries entry old).elim (by simp) id)
  · intro block member some
    rw [get?_put, if_neg (Text.lower_ne_empty some).symm]
    exact listed block member some

end Block
end ToolGraph
