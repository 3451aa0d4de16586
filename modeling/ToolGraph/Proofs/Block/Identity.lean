import ToolGraph.Proofs.Block

/-!
What the tools of a native source are known by: the lines on which their blocks start, the ids made of
these, and the names in the table that all of them share.
-/
namespace ToolGraph.Block
open Entries

/-! ### First lines -/

/-- The line after a separator, where `first` is the number of the first line. -/
def BehindSeparator (texts : List (List Char)) (first line : Int) : Prop :=
  ∃ (position : Nat) (text : List Char), texts[position]? = some text ∧ isSeparator text = true ∧
    line = first + position + 1

theorem BehindSeparator.cons {texts : List (List Char)} {first line : Int}
    (behind : BehindSeparator texts (first + 1) line) (text : List Char) :
    BehindSeparator (text :: texts) first line := by
  obtain ⟨position, separator, found, separates, place⟩ := behind
  refine ⟨position + 1, separator, found, separates, ?_⟩
  omega

theorem readLines_starts {location : String} {line : Int} {block : Block} {inHeader : Bool}
    {texts : List (List Char)} {blocks : List Block}
    (parsed : readLines location line block inHeader texts = .ok blocks) :
    ∀ other ∈ blocks, other.start = block.start ∨ BehindSeparator texts line other.start := by
  induction texts generalizing line block inHeader blocks with
  | nil =>
    obtain rfl := Except.ok.inj parsed
    simp
  | cons text rest ih =>
    intro other member
    unfold readLines at parsed
    split at parsed
    next separates =>
      obtain ⟨others, later, rfl⟩ := map_eq_ok.mp parsed
      rcases List.mem_cons.mp member with rfl | member
      · exact .inl rfl
      · right
        rcases ih later other member with start | behind
        · refine ⟨0, text, rfl, separates, ?_⟩
          rw [start]
          change line + 1 = line + 0 + 1
          omega
        · exact behind.cons text
    next =>
      split at parsed
      next => exact (ih parsed other member).imp_right (·.cons text)
      next =>
        split at parsed
        next entry found =>
          split at parsed
          next header added => exact (ih parsed other member).imp_right (·.cons text)
          next => simp at parsed
        next => exact (ih parsed other member).imp_right (·.cons text)

theorem readAll_starts {content location : String} {firstLine : Int} {blocks : List Block}
    (parsed : readAll content location firstLine = .ok blocks) {block : Block}
    (member : block ∈ blocks) : firstLine ≤ block.start ∧
      (block.start = firstLine ∨
        BehindSeparator (Text.lines content.toList) firstLine block.start) := by
  obtain ⟨all, read, rfl⟩ := map_eq_ok.mp parsed
  have member := List.mem_of_mem_filter member
  exact ⟨(readLines_increasing (Int.le_refl firstLine) read).1 block member,
    readLines_starts read block member⟩

/-! ### Names -/

theorem mem_keys_localTools {location : String} {blocks : List Block}
    {names : Entries String String} (named : localNames location [] blocks = .ok names)
    (id key : String) :
    key ∈ (names.put "" id).keys ↔
      key = "" ∨ ∃ block ∈ blocks, block.name ≠ "" ∧ key = Text.lower block.name := by
  obtain ⟨entries, -, listed, -⟩ := localNames_spec named
  rw [mem_keys_put]
  constructor
  · rintro (rfl | known)
    · exact .inl rfl
    · obtain ⟨value, found⟩ := mem_keys_iff.mp known
      rcases entries _ (mem_of_get? found) with old | ⟨block, member, same⟩
      · cases old
      · obtain ⟨rfl, -⟩ := Prod.mk.inj same
        by_cases nameless : block.name = ""
        · left
          rw [nameless]
          rfl
        · exact .inr ⟨block, member, nameless, rfl⟩
  · rintro (rfl | ⟨block, member, some, rfl⟩)
    · exact .inl rfl
    · exact .inr (mem_keys_of_get? (listed block member some))

/-! ### Tools -/

/-- The tools of a source stand in the order of their lines, of which each is the first one or
follows a separator. Their ids say the source and the line, so that no two agree, nor does one with an
id of another source. All have one table of names, which leads from the empty name to the first
tool and from the name of each named tool, in lower case, to that tool. -/
theorem tools_told_apart {content location workingDir model : String} {firstLine : Int}
    {tools : List Tool} (parsed : parse content location workingDir model firstLine = .ok tools) :
    (tools.map (·.origin.line)).Pairwise (· < ·) ∧
    (∀ tool ∈ tools, tool.origin.location = location ∧ firstLine ≤ tool.origin.line ∧
      (tool.origin.line = firstLine ∨
        BehindSeparator (Text.lines content.toList) firstLine tool.origin.line) ∧
      tool.id = idAt location tool.origin.line ∧
      ∀ other line, other ≠ location → tool.id ≠ idAt other line) ∧
    (tools.map (·.id)).Nodup ∧
    ∃ first localTools, tools.head? = some first ∧
      (∀ tool ∈ tools, tool.localTools = localTools) ∧
      localTools.get? "" = some first.id ∧
      (∀ tool ∈ tools, tool.name ≠ "" →
        localTools.get? (Text.lower tool.name) = some tool.id) ∧
      localTools.keys.Nodup ∧
      ∀ key, key ∈ localTools.keys ↔
        key = "" ∨ ∃ tool ∈ tools, tool.name ≠ "" ∧ key = Text.lower tool.name := by
  obtain ⟨first, blocks, names, read, named, rfl⟩ := exists_blocks_of_parse parsed
  obtain ⟨-, -, listed, apart⟩ := localNames_spec named
  have increasing := readAll_increasing read
  refine ⟨?_, ?_, ?_, _, names.put "" (idAt location first.start), rfl, ?_, ?_, ?_,
    nodup_put (apart List.nodup_nil) _ _, ?_⟩
  · rw [List.map_map, List.pairwise_map]
    exact increasing
  · intro tool member
    obtain ⟨block, known, rfl⟩ := List.mem_map.mp member
    obtain ⟨above, opens⟩ := readAll_starts read known
    exact ⟨rfl, above, opens, rfl, fun other line elsewhere same => elsewhere (idAt_inj same).1.symm⟩
  · rw [List.map_map, List.Nodup, List.pairwise_map]
    refine increasing.imp ?_
    intro one two before same
    have lines : one.start = two.start := (idAt_inj same).2
    omega
  · intro tool member
    obtain ⟨block, -, rfl⟩ := List.mem_map.mp member
    rfl
  · rw [get?_put]
    exact if_pos rfl
  · intro tool member some
    obtain ⟨block, known, rfl⟩ := List.mem_map.mp member
    rw [get?_put, if_neg (Text.lower_ne_empty some).symm]
    exact listed block known some
  · intro key
    rw [mem_keys_localTools named]
    simp only [List.mem_map, exists_exists_and_eq_and]
    rfl

/-- A source with comments, an empty block and a block without a name. -/
def songbook : String := "# tools\nName: Sun\n---\n\n---\n# none\nGo on.\n ---\nname: moon\n\nRise."

set_option maxRecDepth 10000 in
theorem songbook_told_apart :
    ∃ tools, parse songbook "/w/a.gpt" "/w" "m" 1 = .ok tools ∧
      (tools.map (·.origin.line)).Pairwise (· < ·) ∧
      tools.map (·.id) = ["/w/a.gpt:1", "/w/a.gpt:6", "/w/a.gpt:9"] ∧
      tools.map (·.localTools.get? "moon") = List.replicate 3 (some "/w/a.gpt:9") := by
  have shape : (parse songbook "/w/a.gpt" "/w" "m" 1).toOption.map (fun tools =>
      (tools.map (·.id), tools.map (·.localTools.get? "moon"))) =
      some (["/w/a.gpt:1", "/w/a.gpt:6", "/w/a.gpt:9"],
        List.replicate 3 (some "/w/a.gpt:9")) := by
    decide +kernel
  cases parsed : parse songbook "/w/a.gpt" "/w" "m" 1 with
  | error error => simp [parsed, Except.toOption] at shape
  | ok tools =>
    simp only [parsed, Except.toOption, Option.map_some, Option.some.injEq, Prod.mk.injEq] at shape
    exact ⟨tools, rfl, (tools_told_apart parsed).1, shape⟩

end ToolGraph.Block
