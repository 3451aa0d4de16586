import ToolGraph.Load.Source
import ToolGraph.Load.Destination

/-! Where references lead, and the tools of a source by name, as rules. -/
namespace ToolGraph
open Text

/-- The order in which a reference is looked up: as the name of a tool of the same source, first as a
whole and then without its arguments, as the name of a built-in tool, and as a location. -/
inductive Leads (outlook : Outlook) (tool : Tool) (written : String) : Destination → Prop where
  | whole {id : String} (given : (Reference.read written).source ≠ "")
      (named : tool.localTools.get? (lower written) = some id) :
      Leads outlook tool written (.sibling id)
  | part {id : String} (given : (Reference.read written).source ≠ "")
      (other : tool.localTools.get? (lower written) = none)
      (alone : (Reference.read written).subTool = "")
      (named : tool.localTools.get? (lower (Reference.read written).source) = some id) :
      Leads outlook tool written (.sibling id)
  | builtin {target : Tool} (given : (Reference.read written).source ≠ "")
      (other : tool.localTools.get? (lower written) = none)
      (alone : (Reference.read written).subTool = "")
      (unnamed : tool.localTools.get? (lower (Reference.read written).source) = none)
      (marked : Builtin.isReference (Reference.read written).source = true)
      (known : Builtin.find? (Reference.read written).source = some target) :
      Leads outlook tool written (.builtin target)
  | source {location : List Char} (given : (Reference.read written).source ≠ "")
      (other : tool.localTools.get? (lower written) = none)
      (unnamed : (Reference.read written).subTool = "" →
        tool.localTools.get? (lower (Reference.read written).source) = none ∧
          Builtin.isReference (Reference.read written).source = false)
      (located : outlook.locate (Reference.read written).source.toList tool.workingDir.toList =
        .ok location) :
      Leads outlook tool written (.source location (Reference.read written).subTool)

theorem isEmpty_eq_true {text : String} : text.isEmpty = true ↔ text = "" := by simp

theorem sibling?_eq_some {tool : Tool} {written id : String} {reference : Reference} :
    Destination.sibling? tool written reference = some id ↔
      tool.localTools.get? (lower written) = some id ∨
        tool.localTools.get? (lower written) = none ∧ reference.subTool = "" ∧
          tool.localTools.get? (lower reference.source) = some id := by
  unfold Destination.sibling?
  cases whole : tool.localTools.get? (lower written) with
  | some own => simp
  | none => simp

theorem sibling?_eq_none {tool : Tool} {written : String} {reference : Reference} :
    Destination.sibling? tool written reference = none ↔
      tool.localTools.get? (lower written) = none ∧
        (reference.subTool = "" → tool.localTools.get? (lower reference.source) = none) := by
  unfold Destination.sibling?
  cases whole : tool.localTools.get? (lower written) with
  | some own => simp
  | none => simp

section find
variable {outlook : Outlook} {tool : Tool} {written : String} {destination : Destination}

theorem leads_of_find (found : Destination.find outlook tool written = .ok destination) :
    Leads outlook tool written destination := by
  unfold Destination.find at found
  simp only at found
  split at found
  next => cases found
  next some =>
    have given : (Reference.read written).source ≠ "" := by simpa using some
    split at found
    next id named =>
      obtain rfl := Except.ok.inj found
      rcases sibling?_eq_some.mp named with named | ⟨other, alone, named⟩
      · exact .whole given named
      · exact .part given other alone named
    next unlisted =>
      obtain ⟨other, unnamed⟩ := sibling?_eq_none.mp unlisted
      split at found
      next marked =>
        simp only [Bool.and_eq_true, isEmpty_eq_true] at marked
        split at found
        next target known =>
          obtain rfl := Except.ok.inj found
          exact .builtin given other marked.1 (unnamed marked.1) marked.2 known
        next => cases found
      next unmarked =>
        simp only [Bool.and_eq_true, isEmpty_eq_true, not_and, Bool.not_eq_true] at unmarked
        split at found
        next location located =>
          obtain rfl := Except.ok.inj found
          exact .source given other (fun alone => ⟨unnamed alone, unmarked alone⟩) located
        next => cases found

theorem find_of_leads (leads : Leads outlook tool written destination) :
    Destination.find outlook tool written = .ok destination := by
  unfold Destination.find
  cases leads with
  | whole given named =>
    have listed : Destination.sibling? tool written (.read written) = some _ :=
      sibling?_eq_some.mpr (.inl named)
    simp [given, listed]
  | part given other alone named =>
    have listed := sibling?_eq_some.mpr (.inr ⟨other, alone, named⟩)
    simp [given, listed]
  | builtin given other alone unnamed marked known =>
    have unlisted := sibling?_eq_none.mpr ⟨other, fun _ => unnamed⟩
    simp [given, unlisted, alone, marked, known]
  | source given other unnamed located =>
    have unlisted := sibling?_eq_none.mpr ⟨other, fun alone => (unnamed alone).1⟩
    have unmarked : ¬ ((Reference.read written).subTool = "" ∧
        Builtin.isReference (Reference.read written).source = true) :=
      fun both => by simp [(unnamed both.1).2] at both
    simp [given, unlisted, unmarked, located]

/-- The loader looks a reference up in that order. -/
theorem find_eq_ok_iff :
    Destination.find outlook tool written = .ok destination ↔
      Leads outlook tool written destination :=
  ⟨leads_of_find, find_of_leads⟩

theorem Leads.unique {other : Destination} (leads : Leads outlook tool written destination)
    (leads' : Leads outlook tool written other) : destination = other :=
  Except.ok.inj ((find_of_leads leads).symm.trans (find_of_leads leads'))

end find

inductive Enters (source : Source) : String → String → Prop where
  | first : Enters source "" source.first.id
  | named {name id : String} (given : name ≠ "")
      (known : source.first.localTools.get? (lower name) = some id) : Enters source name id

theorem select_eq_ok_iff {source : Source} {name id : String} :
    source.select name = .ok id ↔ Enters source name id := by
  unfold Source.select
  split
  next empty =>
    obtain rfl := isEmpty_eq_true.mp empty
    simp only [Except.ok.injEq]
    constructor
    · rintro rfl
      exact .first
    · intro enters
      cases enters with
      | first => rfl
      | named given => exact absurd rfl given
  next some =>
    have some : name ≠ "" := fun empty => some (isEmpty_eq_true.mpr empty)
    split
    next own known =>
      simp only [Except.ok.injEq]
      constructor
      · rintro rfl
        exact .named some known
      · intro enters
        cases enters with
        | first => exact absurd rfl some
        | named _ found => exact Option.some.inj (known.symm.trans found)
    next unknown =>
      constructor
      · intro selected
        simp at selected
      · intro enters
        cases enters with
        | first => exact absurd rfl some
        | named _ found => simp [unknown] at found

end ToolGraph
