import ToolGraph.Proofs.Text.Words
import ToolGraph.Reference

/-!
The grammar of references. What an author writes after it is read back as it was meant, whatever the
white space between the words is; but arguments of a source alone may not hold the word `from`, which is
taken for the one of the grammar.
-/
namespace ToolGraph.Reference
open Text

/-! ### The grammar -/

/-- A text that can name a source or a tool: it holds no word of the grammar. -/
structure IsPart (text : List Char) : Prop where
  some : text ≠ []
  trimmed : IsTrimmed text
  noFrom : "from".toList ∉ words text
  noWith : "with".toList ∉ words text

/-- White space that keeps two words apart. -/
structure Divides (gap : List Char) : Prop where
  blank : IsGap gap
  wide : gap ≠ []

/-- The white space around a word of the grammar. -/
structure Gaps where
  before : List Char
  after : List Char

namespace Gaps

def around (gaps : Gaps) (word : String) : List Char := gaps.before ++ word.toList ++ gaps.after

structure Divide (gaps : Gaps) : Prop where
  before : Divides gaps.before
  after : Divides gaps.after

end Gaps

/-- A reference as it is meant: `<sub tool> from <source> with <arguments>`, where the parts around the
words of the grammar may be left out. -/
structure Phrase where
  subTool : Option (List Char × Gaps)
  source : List Char
  arguments : Option (Gaps × List Char)

namespace Phrase

def lead (phrase : Phrase) : List Char :=
  match phrase.subTool with
  | none => []
  | some (name, gaps) => name ++ gaps.around "from"

def tail (phrase : Phrase) : List Char :=
  match phrase.arguments with
  | none => []
  | some (gaps, arguments) => gaps.around "with" ++ arguments

def text (phrase : Phrase) : List Char := phrase.lead ++ phrase.source ++ phrase.tail

def meaning (phrase : Phrase) : Reference :=
  ⟨String.ofList phrase.source, String.ofList ((phrase.subTool.map (·.1)).getD [])⟩

/-- The parts hold no word of the grammar, and white space is around these. The arguments may be any
text. -/
structure IsProper (phrase : Phrase) : Prop where
  source : IsPart phrase.source
  subTool : ∀ part ∈ phrase.subTool, IsPart part.1 ∧ part.2.Divide
  arguments : ∀ part ∈ phrase.arguments, part.1.Divide

/-- No argument of a source alone is the word `from`. -/
def IsClear (phrase : Phrase) : Prop :=
  phrase.subTool = none → ∀ part ∈ phrase.arguments, "from".toList ∉ words part.2

end Phrase

/-! ### Reading -/

def withoutArguments (text : List Char) : List Char :=
  match cutAtWord? isBlank "with".toList true text with
  | some (before, _) => trim before
  | none => text

theorem read_of_cut {text : String} {before after : List Char}
    (cut : cutAtWord? isBlank "from".toList true (trim text.toList) = some (before, after)) :
    read text = ⟨String.ofList (withoutArguments (trim after)), String.ofList (trim before)⟩ := by
  simp only [read, cut]
  rfl

theorem read_of_uncut {text : String}
    (uncut : cutAtWord? isBlank "from".toList true (trim text.toList) = none) :
    read text = ⟨String.ofList (withoutArguments (trim text.toList)), ""⟩ := by
  simp only [read, uncut]
  rfl

theorem read_padded {before after : List Char} (blank : IsGap before) (blank' : IsGap after)
    (text : List Char) :
    read (String.ofList (before ++ text ++ after)) = read (String.ofList text) := by
  simp only [read, String.toList_ofList, trim_padded blank blank']

theorem from_written : ∀ c ∈ "from".toList, isBlank c = false :=
  forall_of_all (by decide)

theorem with_written : ∀ c ∈ "with".toList, isBlank c = false :=
  forall_of_all (by decide)

theorem cutAtWord?_part {word part gap : List Char} (some : word ≠ [])
    (written : ∀ c ∈ word, isBlank c = false) (named : part ≠ []) (trimmed : IsTrimmed part)
    (other : word ∉ words part) (divides : Divides gap) {back : List Char}
    (ends : ∀ c ∈ back.head?, isBlank c = true) :
    ∃ rest, cutAtWord? isBlank word true (trim (part ++ gap ++ word ++ back)) =
      Option.some (part ++ gap, rest) ∧ trim rest = trim back := by
  obtain ⟨rest, after, blank, rfl, last⟩ := exists_trimEnd back
  have inner : IsTrimmed (part ++ gap ++ word ++ rest) := by
    constructor
    · obtain ⟨c, part, rfl⟩ := List.exists_cons_of_ne_nil named
      exact trimmed.first
    · intro c known
      rw [List.getLast?_append, Option.mem_def, Option.or_eq_some_iff] at known
      rcases known with known | ⟨-, known⟩
      · exact last c known
      · rw [List.getLast?_append, List.getLast?_eq_some_getLast some, Option.some_or] at known
        exact written c (Option.some.inj known ▸ List.getLast_mem some)
  have same : trim (part ++ gap ++ word ++ (rest ++ after)) = part ++ gap ++ word ++ rest := by
    rw [← List.append_assoc]
    exact (trim_padded isGap_nil blank _).trans inner.trim
  have begins : ∀ c ∈ rest.head?, isBlank c = true := by
    cases rest with
    | nil => simp
    | cons c rest => exact ends
  refine ⟨rest, ?_, (trim_padded isGap_nil blank rest).symm⟩
  rw [same]
  exact cutAtWord?_append written some other divides.blank divides.wide begins

theorem trim_part_gap {part gap : List Char} (trimmed : IsTrimmed part) (blank : IsGap gap) :
    trim (part ++ gap) = part :=
  (trim_padded isGap_nil blank part).trans trimmed.trim

theorem withoutArguments_part {part : List Char} (named : IsPart part) :
    withoutArguments part = part := by
  have none : cutAtWord? isBlank "with".toList true part = none :=
    (cutAtWord?_eq_none_iff with_written (by decide)).mpr named.noWith
  simp only [withoutArguments, none]

theorem Gaps.Divide.head_after {gaps : Gaps} (divide : gaps.Divide) (text : List Char) :
    ∀ c ∈ (gaps.after ++ text).head?, isBlank c = true := by
  obtain ⟨c, rest, same⟩ := List.exists_cons_of_ne_nil divide.after.wide
  rw [same]
  intro d first
  obtain rfl := Option.some.inj first
  exact divide.after.blank c (same ▸ List.mem_cons_self)

namespace Phrase
variable {phrase : Phrase}

theorem withoutArguments_source (proper : phrase.IsProper) :
    withoutArguments (trim (phrase.source ++ phrase.tail)) = phrase.source := by
  obtain ⟨subTool, source, arguments⟩ := phrase
  have named := proper.source
  cases arguments with
  | none =>
    rw [tail, List.append_nil, named.trimmed.trim]
    exact withoutArguments_part named
  | some part =>
    obtain ⟨gaps, arguments⟩ := part
    have divide : gaps.Divide := proper.arguments _ rfl
    obtain ⟨rest, cut, -⟩ := cutAtWord?_part (by decide) with_written named.some named.trimmed
      named.noWith divide.before (divide.head_after arguments)
    have whole : source ++ tail ⟨subTool, source, some (gaps, arguments)⟩ =
        source ++ gaps.before ++ "with".toList ++ (gaps.after ++ arguments) := by
      simp only [tail, Gaps.around, List.append_assoc]
    simp only [withoutArguments, whole, cut]
    exact trim_part_gap named.trimmed divide.before.blank

theorem from_mem_words (proper : phrase.IsProper) :
    "from".toList ∈ words (phrase.source ++ phrase.tail) ↔
      ∃ part ∈ phrase.arguments, "from".toList ∈ words part.2 := by
  obtain ⟨subTool, source, arguments⟩ := phrase
  have named := proper.source
  cases arguments with
  | none =>
    rw [tail, List.append_nil]
    exact iff_of_false named.noFrom (by simp)
  | some part =>
    obtain ⟨gaps, arguments⟩ := part
    have divide : gaps.Divide := proper.arguments _ rfl
    have whole : source ++ tail ⟨subTool, source, some (gaps, arguments)⟩ =
        source ++ gaps.before ++ ("with".toList ++ gaps.after ++ arguments) := by
      simp only [tail, Gaps.around, List.append_assoc]
    have other : "from".toList ∉ words "with".toList := by decide
    rw [whole, mem_words_append (by decide) divide.before.blank divide.before.wide,
      mem_words_append (by decide) divide.after.blank divide.after.wide,
      or_iff_right named.noFrom, or_iff_right other]
    simp

theorem read_of_subTool {name source : List Char} {gaps : Gaps}
    {arguments : Option (Gaps × List Char)}
    (proper : IsProper ⟨some (name, gaps), source, arguments⟩) :
    read (String.ofList (text ⟨some (name, gaps), source, arguments⟩)) =
      meaning ⟨some (name, gaps), source, arguments⟩ := by
  obtain ⟨named, divide⟩ := proper.subTool _ rfl
  let rest := source ++ tail ⟨some (name, gaps), source, arguments⟩
  have whole : text ⟨some (name, gaps), source, arguments⟩ =
      name ++ gaps.before ++ "from".toList ++ (gaps.after ++ rest) := by
    simp only [text, lead, Gaps.around, List.append_assoc, rest]
  obtain ⟨remains, cut, same⟩ := cutAtWord?_part (by decide) from_written named.some named.trimmed
    named.noFrom divide.before (divide.head_after rest)
  have inner : trim (gaps.after ++ rest) = trim rest := by
    simpa using trim_padded divide.after.blank isGap_nil rest
  rw [← whole, ← String.toList_ofList (l := text _)] at cut
  rw [read_of_cut cut, same, inner, withoutArguments_source proper,
    trim_part_gap named.trimmed divide.before.blank]
  rfl

theorem read_of_clear {source : List Char} {arguments : Option (Gaps × List Char)}
    (proper : IsProper ⟨none, source, arguments⟩) (clear : IsClear ⟨none, source, arguments⟩) :
    read (String.ofList (text ⟨none, source, arguments⟩)) = meaning ⟨none, source, arguments⟩ := by
  have whole : text ⟨none, source, arguments⟩ = source ++ tail ⟨none, source, arguments⟩ := by
    simp only [text, lead, List.nil_append]
  have silent : "from".toList ∉ words (trim (source ++ tail ⟨none, source, arguments⟩)) := by
    rw [mem_words_trim (by decide), from_mem_words proper]
    exact fun ⟨part, known, member⟩ => clear rfl part known member
  have uncut : cutAtWord? isBlank "from".toList true
      (trim (source ++ tail ⟨none, source, arguments⟩)) = none :=
    (cutAtWord?_eq_none_iff from_written (by decide)).mpr silent
  rw [← whole, ← String.toList_ofList (l := text _)] at uncut
  rw [read_of_uncut uncut, String.toList_ofList, whole, withoutArguments_source proper]
  rfl

/-- An argument that is the word `from` is taken for the one of the grammar: what stands before it is
read as a tool. -/
theorem read_of_unclear {source : List Char} {arguments : Option (Gaps × List Char)}
    (proper : IsProper ⟨none, source, arguments⟩) (unclear : ¬ IsClear ⟨none, source, arguments⟩) :
    (read (String.ofList (text ⟨none, source, arguments⟩))).subTool ≠ "" := by
  have named := proper.source
  obtain ⟨gaps, arguments, rfl, spoken⟩ : ∃ gaps text, arguments = some (gaps, text) ∧
      "from".toList ∈ words text := by
    simpa [IsClear] using unclear
  have divide : gaps.Divide := proper.arguments _ rfl
  have whole : text ⟨none, source, some (gaps, arguments)⟩ =
      source ++ gaps.before ++ "with".toList ++ (gaps.after ++ arguments) := by
    simp only [text, lead, tail, Gaps.around, List.nil_append, List.append_assoc]
  -- The text goes on after the source with white space, so that its first word is that of the source.
  obtain ⟨rest, cut, -⟩ := cutAtWord?_part (by decide) with_written named.some named.trimmed
    named.noWith divide.before (divide.head_after arguments)
  have pieces := (append_of_cutAtWord? with_written cut).1
  rw [← whole] at pieces
  have first : firstWord (trim (text ⟨none, source, some (gaps, arguments)⟩)) ≠ "from".toList := by
    rw [pieces, List.append_assoc _ "with".toList,
      firstWord_append_gap divide.before.blank divide.before.wide]
    intro same
    refine named.noFrom ?_
    rw [words_eq_cons, same]
    exact List.mem_cons_self
  cases found : cutAtWord? isBlank "from".toList true
      (trim (text ⟨none, source, some (gaps, arguments)⟩)) with
  | none =>
    have absent := (cutAtWord?_eq_none_iff from_written (by decide)).mp found
    refine absurd ?_ absent
    rw [wordsFrom, if_pos rfl, mem_words_trim (by decide)]
    exact (from_mem_words proper).mpr ⟨_, rfl, spoken⟩
  | some parts =>
    obtain ⟨before, after⟩ := parts
    obtain ⟨same, begins⟩ := append_of_cutAtWord? from_written found
    obtain ⟨c, before, rfl⟩ := List.exists_cons_of_ne_nil fun none => first (begins none)
    obtain ⟨d, others, rfl⟩ := List.exists_cons_of_ne_nil named.some
    obtain rfl : d = c := (List.cons.inj (pieces.symm.trans same)).1
    have written : isBlank d = false := named.trimmed.first d rfl
    rw [← String.toList_ofList (l := text _)] at found
    rw [read_of_cut found]
    exact fun none => trim_ne_nil List.mem_cons_self written (String.ofList_eq_empty_iff.mp none)

end Phrase

/-- Without white space, a text is a source unless it is a word of the grammar. -/
theorem read_of_unspaced {text : String} (unspaced : ∀ c ∈ text.toList, isBlank c = false)
    (noFrom : text ≠ "from") (noWith : text ≠ "with") : read text = ⟨text, ""⟩ := by
  by_cases empty : text = ""
  · subst empty
    rfl
  · have other {word : String} (differs : text ≠ word) : word.toList ∉ words text.toList := by
      rw [words_of_unspaced unspaced, List.mem_singleton]
      exact fun same => differs (String.toList_inj.mp same).symm
    have part : IsPart text.toList :=
      ⟨fun none => empty (String.toList_eq_nil_iff.mp none), isTrimmed_of_unspaced unspaced,
        other noFrom, other noWith⟩
    have alone : read (String.ofList (Phrase.text ⟨none, text.toList, none⟩)) =
        Phrase.meaning ⟨none, text.toList, none⟩ :=
      Phrase.read_of_clear ⟨part, by simp, by simp⟩ (fun _ => by simp)
    simpa [Phrase.text, Phrase.lead, Phrase.tail, Phrase.meaning] using alone

/-- White space around a reference does not matter. Every phrase of the grammar is read as it is meant
if, and only if, it is clear. -/
theorem read_phrase {before after : List Char} (blank : IsGap before) (blank' : IsGap after) :
    (∀ text, read (String.ofList (before ++ text ++ after)) = read (String.ofList text)) ∧
      ∀ {phrase : Phrase}, phrase.IsProper →
        (read (String.ofList (before ++ phrase.text ++ after)) = phrase.meaning ↔
          phrase.IsClear) := by
  refine ⟨read_padded blank blank', ?_⟩
  intro phrase proper
  rw [read_padded blank blank']
  obtain ⟨subTool, source, arguments⟩ := phrase
  cases subTool with
  | none =>
    refine ⟨fun same => ?_, Phrase.read_of_clear proper⟩
    by_contra unclear
    exact Phrase.read_of_unclear proper unclear (congrArg Reference.subTool same)
  | some part => exact iff_of_true (Phrase.read_of_subTool proper) (by simp [Phrase.IsClear])

/-- Behind a sub tool, the words of the grammar may be arguments. -/
theorem bread_read_phrase :
    read " bread from\trye  with salt from the sea with iodine\n" = ⟨"rye", "bread"⟩ := by
  let phrase : Phrase :=
    ⟨some ("bread".toList, ⟨[' '], ['\t']⟩), "rye".toList,
      some (⟨[' ', ' '], [' ']⟩, "salt from the sea with iodine".toList)⟩
  have proper : phrase.IsProper := by
    refine ⟨⟨by decide, by decide, by decide, by decide⟩, ?_, ?_⟩
    · intro part known
      obtain rfl := Option.some.inj known
      exact ⟨⟨by decide, by decide, by decide, by decide⟩, ⟨by decide, by decide⟩,
        ⟨by decide, by decide⟩⟩
    · intro part known
      obtain rfl := Option.some.inj known
      exact ⟨⟨by decide, by decide⟩, ⟨by decide, by decide⟩⟩
  have before : IsGap [' '] := by decide
  have after : IsGap ['\n'] := by decide
  exact ((read_phrase before after).2 proper).mpr (fun none => by cases none)

example : read "rye with salt from the sea" = ⟨"the sea", "rye with salt"⟩ := by decide

end ToolGraph.Reference
