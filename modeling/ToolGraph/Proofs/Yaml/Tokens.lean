import ToolGraph.Proofs.Yaml.Scanning
import ToolGraph.Yaml.Token

/-!
What the tokens of a YAML text hold. Reading them keeps to the text, so that the words of each scalar stand
in it, unless it has escapes.
-/
namespace ToolGraph.Yaml
open Text

/-- The words of the token, if it is a scalar, stand in the text. -/
def Token.Shown (source : List Char) : Token → Prop
  | .scalar text _ => Shows source text.toList
  | _ => True

namespace Tokens

/-- What is ahead is the end of the text, and the tokens so far have their words from it. -/
structure Scanned (source : List Char) (tokens : Tokens) : Prop where
  inside : tokens.cursor.Inside source
  shown : ∀ token ∈ tokens.done, token.Shown source

section scanned
variable {source : List Char} {tokens : Tokens}

theorem Scanned.allow (scanned : Scanned source tokens) (allowed : Bool) :
    Scanned source { tokens with keyAllowed := allowed } :=
  ⟨scanned.inside, scanned.shown⟩

/-- Indentation, possible keys and the like do not matter. -/
theorem Scanned.change {other : Tokens} (scanned : Scanned source tokens)
    (cursor : other.cursor = tokens.cursor) (done : other.done = tokens.done) : Scanned source other :=
  ⟨cursor ▸ scanned.inside, done ▸ scanned.shown⟩

theorem Scanned.moved {after : Cursor} (scanned : Scanned source tokens) (inside : after.Inside source) :
    Scanned source { tokens with cursor := after } :=
  ⟨inside, scanned.shown⟩

/-! ### Tokens that are put in -/

theorem Scanned.push (scanned : Scanned source tokens) (token : Token) (shown : token.Shown source) :
    Scanned source (tokens.push token) :=
  ⟨scanned.inside, fun other member => (Array.mem_push.mp member).elim (scanned.shown other)
    fun same => same ▸ shown⟩

theorem shown_insertIdx {done : Array Token} (each : ∀ other ∈ done, other.Shown source) (position : Nat)
    {token : Token} (shown : token.Shown source) :
    ∀ other ∈ done.insertIdxIfInBounds position token, other.Shown source := by
  intro other member
  unfold Array.insertIdxIfInBounds at member
  split at member
  · rcases Array.mem_insertIdx.mp member with rfl | old
    · exact shown
    · exact each other old
  · exact each other member

theorem Scanned.insert (scanned : Scanned source tokens) (position : Nat) (token : Token)
    (shown : token.Shown source) : Scanned source (tokens.insert position token) :=
  ⟨scanned.inside, shown_insertIdx scanned.shown position shown⟩

theorem Scanned.openBlock (scanned : Scanned source tokens) (column : Int) (position : Nat)
    (token : Token) (shown : token.Shown source) : Scanned source (tokens.openBlock column position token) := by
  unfold Tokens.openBlock
  split
  · exact ⟨scanned.inside, shown_insertIdx scanned.shown position shown⟩
  · exact scanned

theorem Scanned.take (scanned : Scanned source tokens) (count : Nat) (token : Token)
    (shown : token.Shown source) : Scanned source (tokens.take count token) :=
  ⟨scanned.inside.skip count, (scanned.push token shown).shown⟩

theorem shown_unwind {column indent : Int} {outer : List Int} {done : Array Token}
    (each : ∀ other ∈ done, other.Shown source) :
    ∀ other ∈ (unwind column indent outer done).2.2, other.Shown source := by
  induction outer generalizing indent done with
  | nil => exact each
  | cons next rest ih =>
    unfold unwind
    split
    · refine ih fun other member => ?_
      rcases Array.mem_push.mp member with old | rfl
      · exact each other old
      · trivial
    · exact each

theorem Scanned.unwindTo (scanned : Scanned source tokens) (column : Int) :
    Scanned source (tokens.unwindTo column) := by
  unfold Tokens.unwindTo
  split
  · exact scanned
  · exact ⟨scanned.inside, shown_unwind scanned.shown⟩

theorem Scanned.skipBlank (scanned : Scanned source tokens) (steps : Nat) :
    Scanned source (tokens.skipBlank steps) := by
  induction steps generalizing tokens with
  | zero => exact scanned
  | succ steps ih =>
    have inside : (tokens.cursor.skipWhile (· == ' ')).Inside source := scanned.inside.behind _
    unfold Tokens.skipBlank
    generalize tokens.cursor.skipWhile (· == ' ') = cursor at inside ⊢
    have inside : (if cursor.peek = '#' then cursor.skipWhile (!isBreakOrEnd ·) else cursor).Inside
        source := by
      split
      · exact inside.behind _
      · exact inside
    simp only
    generalize (if cursor.peek = '#' then cursor.skipWhile (!isBreakOrEnd ·) else cursor) = cursor
      at inside ⊢
    split
    next kept after found => exact ih ⟨(Cursor.lineBreak?_eq_some found inside).2, scanned.shown⟩
    next => exact ⟨inside, scanned.shown⟩

/-! ### Possible keys -/

theorem dropStaleKeys_yields (scanned : Scanned source tokens) :
    Yields source (Scanned source) tokens.dropStaleKeys := by
  unfold dropStaleKeys
  simp only
  split
  · exact .malformed
  · exact .ok (scanned.change rfl rfl)

theorem dropKey_yields (scanned : Scanned source tokens) :
    Yields source (Scanned source) tokens.dropKey := by
  unfold dropKey
  split
  · exact .ok scanned
  · split
    · exact .malformed
    · exact .ok (scanned.change rfl rfl)

theorem saveKey_yields (scanned : Scanned source tokens) :
    Yields source (Scanned source) tokens.saveKey := by
  unfold saveKey
  split
  · exact (dropKey_yields scanned).bind fun _ dropped => .ok (dropped.change rfl rfl)
  · exact .ok scanned

/-! ### One token -/

theorem atMargin_yields (scanned : Scanned source tokens) :
    Yields source (Scanned source) tokens.atMargin :=
  (dropKey_yields (scanned.unwindTo (-1))).bind fun _ dropped => .ok (dropped.change rfl rfl)

theorem blockEntry_yields (scanned : Scanned source tokens) :
    Yields source (Scanned source) tokens.blockEntry := by
  have opened := scanned.openBlock tokens.cursor.column tokens.done.size .blockSequenceStart trivial
  unfold blockEntry
  refine .guard ((dropKey_yields (opened.allow _)).bind fun _ dropped => ?_)
  exact .ok (dropped.take 1 .blockEntry trivial)

theorem complexKey_yields (scanned : Scanned source tokens) :
    Yields source (Scanned source) tokens.complexKey := by
  have opened := scanned.openBlock tokens.cursor.column tokens.done.size .blockMappingStart trivial
  unfold complexKey
  refine .guard ((dropKey_yields (opened.allow _)).bind fun _ dropped => ?_)
  exact .ok (dropped.take 1 .key trivial)

theorem keyValue_yields (scanned : Scanned source tokens) :
    Yields source (Scanned source) tokens.keyValue := by
  unfold keyValue
  split
  next key found =>
    have forgotten : Scanned source
        { tokens with keys := tokens.keys.filter (fun key => key.1 != tokens.flowLevel) } :=
      scanned.change rfl rfl
    have opened := (forgotten.insert key.position .key trivial).openBlock key.column key.position
      .blockMappingStart trivial
    exact .ok ((opened.allow false).take 1 .value trivial)
  next =>
    have opened := scanned.openBlock tokens.cursor.column tokens.done.size .blockMappingStart trivial
    refine .guard ((dropKey_yields (opened.allow _)).bind fun _ dropped => ?_)
    exact .ok (dropped.take 1 .value trivial)

theorem openFlow_yields (scanned : Scanned source tokens) (token : Token) (shown : token.Shown source) :
    Yields source (Scanned source) (tokens.openFlow token) := by
  unfold openFlow
  refine (saveKey_yields scanned).bind fun tokens saved => ?_
  have nested : Scanned source { tokens with flowLevel := tokens.flowLevel + 1, keyAllowed := true } :=
    saved.change rfl rfl
  exact .ok (nested.take 1 token shown)

theorem closeFlow_yields (scanned : Scanned source tokens) (token : Token) (shown : token.Shown source) :
    Yields source (Scanned source) (tokens.closeFlow token) := by
  unfold closeFlow
  refine .guard ((dropKey_yields scanned).bind fun tokens dropped => ?_)
  have outer : Scanned source { tokens with flowLevel := tokens.flowLevel - 1, keyAllowed := false } :=
    dropped.change rfl rfl
  exact .ok (outer.take 1 token shown)

theorem content_yields (scanned : Scanned source tokens) {read : Except Error (Token × Cursor)}
    (reads : Yields source (fun read => read.1.Shown source ∧ read.2.Inside source) read) :
    Yields source (Scanned source) (tokens.content read) := by
  unfold content
  refine (saveKey_yields scanned).bind fun tokens saved => reads.bind fun read good => ?_
  have moved : Scanned source { tokens with cursor := read.2, keyAllowed := false } :=
    (saved.moved good.2).change rfl rfl
  exact .ok (moved.push read.1 good.1)

theorem plainScalar_yields (scanned : Scanned source tokens) :
    Yields source (Scanned source) tokens.plainScalar := by
  unfold plainScalar
  refine (saveKey_yields scanned).bind fun tokens saved => ?_
  obtain ⟨shows, inside⟩ := Cursor.plain_shows tokens.inFlow tokens.indent saved.inside
  generalize tokens.cursor.plain tokens.inFlow tokens.indent = read at shows inside ⊢
  have moved : Scanned source { tokens with cursor := read.2.2, keyAllowed := read.2.1 } :=
    (saved.moved inside).change rfl rfl
  exact .ok (moved.push (.scalar read.1 true) shows)

theorem blockScalar_yields (unmarked : endMark ∉ source) (scanned : Scanned source tokens) :
    Yields source (Scanned source) tokens.blockScalar := by
  unfold blockScalar
  refine (dropKey_yields (scanned.allow true)).bind fun tokens dropped => ?_
  refine (Cursor.block_yields unmarked tokens.indent dropped.inside).bind fun read good => ?_
  exact .ok ((dropped.moved good.2).push (.scalar read.1 false) good.1)

theorem anchorName_shown (scanned : Scanned source tokens) {make : String → Token}
    (shown : ∀ text, (make text).Shown source) :
    Yields source (fun read => read.1.Shown source ∧ read.2.Inside source)
      (tokens.cursor.anchorName.map (fun read => (make read.1, read.2))) :=
  (Cursor.anchorName_yields scanned.inside).map fun read inside => ⟨shown read.1, inside⟩

theorem next_yields (unmarked : endMark ∉ source) (scanned : Scanned source tokens) :
    Yields source (Scanned source) tokens.next := by
  unfold next
  extract_lets cursor c alone
  refine .ite ?_ ?_
  · refine (atMargin_yields scanned).bind fun tokens margin => ?_
    refine (Cursor.directive_yields margin.inside).bind fun read inside => ?_
    exact .ok ((margin.moved inside).push (.directive read.1) trivial)
  refine .ite ?_ ?_
  · refine (atMargin_yields scanned).bind fun tokens margin => .ok (margin.take 3 _ ?_)
    split <;> trivial
  refine .ite ?_ ?_
  · exact openFlow_yields scanned .flowSequenceStart trivial
  refine .ite ?_ ?_
  · exact openFlow_yields scanned .flowMappingStart trivial
  refine .ite ?_ ?_
  · exact closeFlow_yields scanned .flowSequenceEnd trivial
  refine .ite ?_ ?_
  · exact closeFlow_yields scanned .flowMappingEnd trivial
  refine .ite ?_ ?_
  · exact (dropKey_yields (scanned.allow true)).bind fun _ dropped =>
      .ok (dropped.take 1 .flowEntry trivial)
  refine .ite ?_ ?_
  · exact blockEntry_yields scanned
  refine .ite ?_ ?_
  · exact complexKey_yields scanned
  refine .ite ?_ ?_
  · exact keyValue_yields scanned
  refine .ite ?_ ?_
  · exact content_yields scanned (anchorName_shown scanned fun _ => trivial)
  refine .ite ?_ ?_
  · exact content_yields scanned (anchorName_shown scanned fun _ => trivial)
  refine .ite ?_ ?_
  · exact content_yields scanned
      ((Cursor.tag_yields scanned.inside).map fun read inside => ⟨trivial, inside⟩)
  refine .ite ?_ ?_
  · exact blockScalar_yields unmarked scanned
  refine .ite ?_ ?_
  · exact content_yields scanned ((Cursor.quoted_yields unmarked scanned.inside).map fun _ => id)
  refine .ite ?_ ?_
  · exact plainScalar_yields scanned
  · exact .malformed

/-! ### All tokens -/

theorem run_yields (unmarked : endMark ∉ source) (steps : Nat) (scanned : Scanned source tokens) :
    Yields source (fun tokens => ∀ token ∈ tokens, token.Shown source) (tokens.run steps) := by
  induction steps generalizing tokens with
  | zero => exact .malformed
  | succ steps ih =>
    unfold run
    refine (dropStaleKeys_yields (scanned.skipBlank _)).bind fun tokens fresh => ?_
    have unwound := fresh.unwindTo tokens.cursor.column
    extract_lets tokens
    split
    · refine (atMargin_yields unwound).bind fun tokens margin => ?_
      exact .ok fun token member =>
        (margin.push .streamEnd trivial).shown token (Array.mem_toList_iff.mp member)
    · exact (next_yields unmarked unwound).bind fun _ read => ih read

theorem ofText_yields (text : List Char) :
    Yields text (fun tokens => ∀ token ∈ tokens, token.Shown text) (ofText text) := by
  unfold ofText
  split
  next allowed =>
    have unmarked : endMark ∉ text := fun member =>
      absurd (List.all_eq_true.mp allowed endMark member) (by decide)
    have begins : Scanned text (start text) := ⟨List.suffix_rfl, by simp [start]⟩
    extract_lets opened tokens
    refine run_yields unmarked _ ?_
    unfold tokens
    split
    · exact begins.moved begins.inside.step
    · exact begins
  next => exact .malformed

end scanned
end Tokens
end ToolGraph.Yaml
