import Mathlib.Algebra.GroupWithZero.Nat
import ToolGraph.Proofs.Block.Grammar
import ToolGraph.Proofs.Text.Words

/-!
Comments and blank lines in front of a block. Comments leave the tools of a source as they are, but for
the lines that later blocks start on; a blank line ends the header that it stands before. So the tools
stay the same exactly if no line of a header is behind a blank one.
-/
namespace ToolGraph
open Text

/-- A tool of a source whose blocks start on other lines. The ids tell the lines. -/
def Tool.renumber (label : String → String) (move : Int → Int) (tool : Tool) : Tool :=
  { tool with
    id := label tool.id
    localTools := tool.localTools.mapValues label
    origin := { tool.origin with line := move tool.origin.line } }

namespace Block

/-- The ids of a source whose blocks start on other lines. -/
def Relabels (location : String) (move : Int → Int) (label : String → String) : Prop :=
  ∀ line, label (idAt location line) = idAt location (move line)

/-- Lines behind a place are `count` lines further down. -/
def moveBehind (place : Int) (count : Nat) (line : Int) : Int :=
  if line ≤ place then line else line + count

def IsFiller (line : List Char) : Prop := isComment line = true ∨ IsGap line

instance (line : List Char) : Decidable (IsFiller line) :=
  inferInstanceAs (Decidable (_ ∨ _))

/-- Added lines in front of a block leave its header in sight: all of them are comments, or the block
has no line of a header, and behind comments the added lines are blank. -/
def InSight (added block : List (List Char)) : Prop :=
  (∀ line ∈ added, isComment line = true) ∨
    (∀ line ∈ added.dropWhile isComment, IsGap line) ∧ block.takeWhile Chunk.isHeaderLine = []

instance (added block : List (List Char)) : Decidable (InSight added block) :=
  inferInstanceAs (Decidable (_ ∨ _))

theorem exists_relabels (location : String) (move : Int → Int) :
    ∃ label, Relabels location move label :=
  ⟨Function.extend (idAt location) (fun line => idAt location (move line)) id,
    Function.Injective.extend_apply (fun _ _ same => (idAt_inj same).2) _ _⟩

end Block

/-! ### What is written in lines -/

namespace Text

/-- How many characters are no white space. -/
def written (text : List Char) : Nat := text.countP (!isBlank ·)

theorem written_eq_zero_iff {text : List Char} : written text = 0 ↔ IsGap text := by
  simp [written, IsGap, List.countP_eq_zero]

theorem written_append (one two : List Char) : written (one ++ two) = written one + written two :=
  List.countP_append

theorem written_trim (text : List Char) : written (trim text) = written text := by
  obtain ⟨before, after, blank, blank', whole⟩ := exists_trim text
  have counts := congrArg written whole
  rw [written_append, written_append, written_eq_zero_iff.mpr blank,
    written_eq_zero_iff.mpr blank'] at counts
  omega

theorem trim_eq_nil_iff {text : List Char} : trim text = [] ↔ IsGap text := by
  refine ⟨fun none => ?_, trim_of_gap⟩
  rw [← written_eq_zero_iff, ← written_trim, none]
  rfl

theorem joinWith_cons (between piece : List Char) {pieces : List (List Char)} (some : pieces ≠ []) :
    joinWith between (piece :: pieces) = piece ++ between ++ joinWith between pieces := by
  cases pieces with
  | nil => exact absurd rfl some
  | cons => rfl

theorem written_joinWith (lines : List (List Char)) :
    written (joinWith ['\n'] lines) = (lines.map written).sum := by
  induction lines with
  | nil => rfl
  | cons line lines ih =>
    by_cases last : lines = []
    · simp [last, joinWith]
    · have feed : written ['\n'] = 0 := by decide
      rw [joinWith_cons _ _ last, written_append, written_append, feed, ih, List.map_cons,
        List.sum_cons, Nat.add_zero]

theorem trim_joinWith {blanks : List (List Char)} (blank : ∀ line ∈ blanks, IsGap line)
    (lines : List (List Char)) :
    trim (joinWith ['\n'] (blanks ++ lines)) = trim (joinWith ['\n'] lines) := by
  induction blanks with
  | nil => rfl
  | cons line blanks ih =>
    obtain ⟨first, others⟩ := List.forall_mem_cons.mp blank
    rw [← ih others, List.cons_append]
    by_cases last : blanks ++ lines = []
    · rw [last, joinWith, joinWith, trim_of_gap first]
      rfl
    · have feed : IsGap ['\n'] := by decide
      have gap : IsGap (line ++ ['\n']) := List.forall_mem_append.mpr ⟨first, feed⟩
      rw [joinWith_cons _ _ last]
      simpa using trim_padded gap isGap_nil (joinWith ['\n'] (blanks ++ lines))

theorem cutAt?_of_not_mem {mark : Char} {text : List Char} (free : mark ∉ text) :
    cutAt? mark text = none := by
  induction text with
  | nil => rfl
  | cons c rest ih =>
    rw [List.mem_cons, not_or] at free
    rw [cutAt?, if_neg (Ne.symm free.1), ih free.2]
    rfl

end Text

/-! ### Chunks by their lines -/

namespace Chunk
open Block

def headerLines (lines : List (List Char)) : List HeaderLine :=
  (lines.takeWhile isHeaderLine).filterMap fun line =>
    if isComment line then none else headerLine? line

theorem map_entriesFrom (number : Int) (lines : List (List Char)) :
    (entriesFrom number lines).map (·.2) =
      lines.filterMap fun line => if isComment line then none else headerLine? line := by
  induction lines generalizing number with
  | nil => rfl
  | cons line lines ih =>
    rw [entriesFrom, List.map_append, ih, List.filterMap_cons]
    split
    next => rfl
    next => cases headerLine? line <;> rfl

theorem map_entries (chunk : Chunk) : chunk.entries.map (·.2) = headerLines chunk.lines :=
  map_entriesFrom _ _

theorem faults_eq_nil_iff {chunk : Chunk} :
    chunk.faults = [] ↔ ∀ line ∈ headerLines chunk.lines, line.fault? = none := by
  rw [← map_entries, List.forall_mem_map, faults, faultsOf, List.filterMap_eq_nil_iff]
  simp

theorem isBlank_iff (chunk : Chunk) :
    chunk.isBlank = true ↔
      (headerLines chunk.lines).any (·.records) = false ∧ ∀ line ∈ chunk.body, IsGap line := by
  rw [isBlank, ← map_entries, List.any_map, Bool.and_eq_true, Bool.not_eq_true', List.all_eq_true]
  simp only [List.isEmpty_iff, trim_eq_nil_iff]
  rfl

theorem block_eq (chunk : Chunk) :
    chunk.block = ⟨chunk.start, Header.ofLines (headerLines chunk.lines), chunk.body⟩ := by
  rw [block, map_entries]

/-- Two chunks are alike, but for where they start. -/
structure Alike (move : Int → Int) (one two : Chunk) : Prop where
  start : two.start = move one.start
  header : headerLines two.lines = headerLines one.lines
  text : trim two.block.text = trim one.block.text
  blank : two.isBlank = one.isBlank

variable {move : Int → Int}

theorem alike_of_parts {one two : Chunk} (start : two.start = move one.start)
    (header : headerLines two.lines = headerLines one.lines)
    {blanks : List (List Char)} (blank : ∀ line ∈ blanks, IsGap line)
    (body : two.body = blanks ++ one.body) : Alike move one two where
  start := start
  header := header
  text := by
    rw [block_eq, block_eq, Block.text, Block.text, body]
    exact trim_joinWith blank one.body
  blank := by
    rw [Bool.eq_iff_iff, isBlank_iff, isBlank_iff, header, body, List.forall_mem_append,
      and_iff_right blank]

theorem alike_of_lines {one two : Chunk} (start : two.start = move one.start)
    (same : two.lines = one.lines) : Alike move one two :=
  alike_of_parts start (by rw [same]) (List.forall_mem_nil _) (by rw [body, body, same]; rfl)

/-! ### Lines in front of a chunk -/

theorem isComment_eq_false {line : List Char} (gap : IsGap line) : isComment line = false := by
  rw [isComment, trim_of_gap gap]
  rfl

theorem isHeaderLine_eq_false {line : List Char} (gap : IsGap line) : isHeaderLine line = false := by
  have free : ':' ∉ line := fun member => absurd (gap ':' member) (by decide)
  have none : headerLine? line = none := by
    simp only [headerLine?, isDirective, trim_of_gap gap, HeaderLine.read?, cutAt?_of_not_mem free]
    rfl
  rw [isHeaderLine, isComment_eq_false gap, none]
  rfl

theorem written_pos {line : List Char} (goes : isHeaderLine line = true) : 0 < written line := by
  refine Nat.pos_of_ne_zero fun none => ?_
  rw [isHeaderLine_eq_false (written_eq_zero_iff.mp none)] at goes
  cases goes

theorem isHeaderLine_of_comment {line : List Char} (comment : isComment line = true) :
    isHeaderLine line = true := by
  rw [isHeaderLine, comment, Bool.true_or]

theorem isSeparator_eq_false {line : List Char} (filler : IsFiller line) :
    isSeparator line = false := by
  rcases filler with comment | gap
  · rw [isSeparator, beq_eq_false_iff_ne]
    intro same
    rw [isComment, same] at comment
    cases comment
  · rw [isSeparator, trim_of_gap gap]
    rfl

theorem parts_of_comments {comments : List (List Char)}
    (each : ∀ line ∈ comments, isComment line = true) (lines : List (List Char)) :
    headerLines (comments ++ lines) = headerLines lines ∧
      (comments ++ lines).dropWhile isHeaderLine = lines.dropWhile isHeaderLine := by
  have goes : ∀ line ∈ comments, isHeaderLine line = true :=
    fun line member => isHeaderLine_of_comment (each line member)
  have silent : (comments.filterMap fun line =>
      if isComment line then none else headerLine? line) = [] :=
    List.filterMap_eq_nil_iff.mpr fun line member => if_pos (each line member)
  refine ⟨?_, List.dropWhile_append_of_pos goes⟩
  rw [headerLines, List.takeWhile_append_of_pos goes, List.filterMap_append, silent]
  rfl

theorem parts_of_gap {gap : List Char} (blank : IsGap gap) (lines : List (List Char)) :
    headerLines (gap :: lines) = [] ∧ (gap :: lines).dropWhile isHeaderLine = gap :: lines := by
  have stops : ¬ isHeaderLine gap = true := by simp [isHeaderLine_eq_false blank]
  exact ⟨by rw [headerLines, List.takeWhile_cons_of_neg stops]; rfl, List.dropWhile_cons_of_neg stops⟩

theorem exists_comments {added : List (List Char)} (fillers : ∀ line ∈ added, IsFiller line) :
    ∃ comments rest, added = comments ++ rest ∧ (∀ line ∈ comments, isComment line = true) ∧
      rest = added.dropWhile isComment ∧ ∀ line ∈ rest.head?, IsGap line := by
  refine ⟨added.takeWhile isComment, _, List.takeWhile_append_dropWhile.symm,
    fun line member => List.mem_takeWhile_imp member, rfl, fun line first => ?_⟩
  have stops := List.head?_dropWhile_not isComment added
  rw [Option.mem_def.mp first] at stops
  have member := (List.dropWhile_sublist isComment).subset (List.mem_of_mem_head? first)
  exact (fillers line member).resolve_left (by simpa using stops)

variable {added part : List (List Char)} {start : Int}

theorem alike_of_inSight (fillers : ∀ line ∈ added, IsFiller line) (sight : InSight added part)
    (stays : move start = start) : Alike move ⟨start, part⟩ ⟨start, added ++ part⟩ := by
  rcases sight with comments | ⟨blank, headless⟩
  · obtain ⟨header, body⟩ := parts_of_comments comments part
    exact alike_of_parts stays.symm header (List.forall_mem_nil _) body
  · obtain ⟨comments, rest, rfl, each, same, first⟩ := exists_comments fillers
    rw [← same] at blank
    obtain ⟨header, body⟩ := parts_of_comments each (rest ++ part)
    have own : headerLines part = [] := by rw [headerLines, headless]; rfl
    have whole := List.takeWhile_append_dropWhile (p := isHeaderLine) (l := part)
    rw [headless, List.nil_append] at whole
    refine alike_of_parts stays.symm ?_ blank ?_
    · rw [List.append_assoc, header, own]
      cases rest with
      | nil => exact own
      | cons gap rest => exact (parts_of_gap (first gap rfl) _).1
    · rw [Chunk.body, List.append_assoc, body, Chunk.body, whole]
      cases rest with
      | nil => exact whole
      | cons gap rest => exact (parts_of_gap (first gap rfl) _).2

def weight (chunk : Chunk) : Nat := (chunk.body.map written).sum

theorem written_text (chunk : Chunk) : written (trim chunk.block.text) = chunk.weight := by
  rw [written_trim, Block.text, written_joinWith, block_eq]
  rfl

theorem parts_of_hidden (fillers : ∀ line ∈ added, IsFiller line) (hidden : ¬ InSight added part) :
    headerLines (added ++ part) = [] ∧
      (added ++ part).dropWhile isHeaderLine = added.dropWhile isComment ++ part := by
  obtain ⟨comments, rest, rfl, each, same, first⟩ := exists_comments fillers
  rw [← same]
  cases rest with
  | nil => exact absurd (.inl (by simpa using each)) hidden
  | cons gap rest =>
    obtain ⟨header, body⟩ := parts_of_comments each (gap :: rest ++ part)
    obtain ⟨none, whole⟩ := parts_of_gap (first gap rfl) (rest ++ part)
    rw [List.append_assoc]
    exact ⟨header.trans none, body.trans whole⟩

/-- Behind lines that hide it, the text of a chunk holds more: these from the first blank one on, and what had
been its header. -/
theorem weight_lt (fillers : ∀ line ∈ added, IsFiller line) (hidden : ¬ InSight added part) :
    weight ⟨start, part⟩ < weight ⟨start, added ++ part⟩ := by
  have total : (part.map written).sum =
      ((part.takeWhile isHeaderLine).map written).sum + weight ⟨start, part⟩ := by
    rw [weight, Chunk.body, ← List.sum_append, ← List.map_append, List.takeWhile_append_dropWhile]
  have more : weight ⟨start, added ++ part⟩ =
      ((added.dropWhile isComment).map written).sum + (part.map written).sum := by
    rw [weight, Chunk.body, (parts_of_hidden fillers hidden).2, List.map_append, List.sum_append]
  have extra : 0 < ((added.dropWhile isComment).map written).sum ∨
      0 < ((part.takeWhile isHeaderLine).map written).sum := by
    by_contra none
    obtain ⟨blank, headless⟩ := not_or.mp none
    simp only [Nat.not_lt, Nat.le_zero, List.sum_eq_zero_iff_forall_eq_nat,
      List.forall_mem_map] at blank headless
    refine hidden (.inr ⟨fun line member => written_eq_zero_iff.mp (blank line member), ?_⟩)
    refine List.eq_nil_iff_forall_not_mem.mpr fun line member => ?_
    have := written_pos (List.mem_takeWhile_imp member)
    have := headless line member
    omega
  omega

/-! ### Cutting a source at a block -/

/-- How many lines parts have, each with a separator after it. -/
def extent (parts : List (List (List Char))) : Nat := (parts.map (·.length + 1)).sum

theorem extent_cons (part : List (List Char)) (parts : List (List (List Char))) :
    extent (part :: parts) = part.length + 1 + extent parts := rfl

theorem numbered_append (start : Int) (one two : List (List (List Char))) :
    numbered start (one ++ two) = numbered start one ++ numbered (start + extent one) two := by
  induction one generalizing start with
  | nil => simp [numbered, extent]
  | cons part parts ih =>
    have place : start + part.length + 1 + extent parts = start + extent (part :: parts) := by
      rw [extent_cons]
      omega
    rw [List.cons_append, numbered, ih, numbered, place, List.cons_append]

theorem start_of_mem_numbered {parts : List (List (List Char))} {chunk : Chunk}
    (member : chunk ∈ numbered start parts) :
    start ≤ chunk.start ∧ chunk.start < start + extent parts := by
  induction parts generalizing start with
  | nil => simp [numbered] at member
  | cons part parts ih =>
    rw [extent_cons]
    rcases List.mem_cons.mp member with rfl | later
    · constructor
      · exact Int.le_refl _
      · change start < _
        omega
    · have := ih later
      omega

theorem extent_splitOnP (lines : List (List Char)) :
    extent (lines.splitOnP isSeparator) = lines.length + 1 := by
  induction lines with
  | nil => rfl
  | cons line lines ih =>
    rw [splitOnP_eq_cons, extent_cons] at ih
    rw [List.splitOnP_cons_eq_if_modifyHead, splitOnP_eq_cons _ lines, List.length_cons]
    split
    next => rw [extent_cons, extent_cons, List.length_nil]; omega
    next => rw [List.modifyHead_cons, extent_cons, List.length_cons]; omega

theorem exists_front (start : Int) {before : List (List Char)}
    (ends : ∀ line ∈ before.getLast?, isSeparator line = true) :
    ∃ front, (∀ chunk ∈ front, chunk.start < start + before.length) ∧
      ∀ rest, ofLines start (before ++ rest) = front ++ ofLines (start + before.length) rest := by
  rcases List.eq_nil_or_concat before with rfl | ⟨lines, line, rfl⟩
  · exact ⟨[], by simp, by simp⟩
  · rw [List.concat_eq_append] at ends ⊢
    have separates := ends line (by simp)
    have total : extent (lines.splitOnP isSeparator) = (lines ++ [line]).length := by
      rw [extent_splitOnP, List.length_append, List.length_singleton]
    refine ⟨ofLines start lines, fun chunk member => ?_, fun rest => ?_⟩
    · rw [← total]
      exact (start_of_mem_numbered member).2
    · rw [List.append_assoc, List.singleton_append, ofLines,
        List.splitOnP_append_cons lines rest separates, numbered_append, total]
      rfl

def firstPart (lines : List (List Char)) : List (List Char) := lines.takeWhile (!isSeparator ·)

/-- Lines in front of the first chunk that are no separators are lines of this chunk, and move the
later ones. -/
theorem exists_later (start : Int) (fillers : ∀ line ∈ added, IsFiller line)
    (lines : List (List Char)) :
    ∃ parts, let next := start + (firstPart lines).length + 1
      ofLines start lines = ⟨start, firstPart lines⟩ :: numbered next parts ∧
      ofLines start (added ++ lines) =
        ⟨start, added ++ firstPart lines⟩ :: numbered (next + added.length) parts := by
  have free : ∀ line ∈ added, isSeparator line = false :=
    fun line member => isSeparator_eq_false (fillers line member)
  refine ⟨(lines.splitOnP isSeparator).tail, ?_, ?_⟩
  · rw [ofLines, splitOnP_eq_cons]
    rfl
  · have place : start + (added ++ firstPart lines).length + 1 =
        start + (firstPart lines).length + 1 + added.length := by
      rw [List.length_append]
      omega
    rw [ofLines, splitOnP_append free, splitOnP_eq_cons _ lines, List.modifyHead_cons, numbered,
      ← place]
    rfl

theorem alike_numbered {parts : List (List (List Char))} {count : Nat}
    (moves : ∀ line, start ≤ line → move line = line + count) :
    List.Forall₂ (Alike move) (numbered start parts) (numbered (start + count) parts) := by
  induction parts generalizing start with
  | nil => exact .nil
  | cons part parts ih =>
    have place : start + count + part.length + 1 = start + part.length + 1 + count := by omega
    rw [numbered, numbered, place]
    exact .cons (alike_of_lines (moves start (Int.le_refl start)).symm rfl)
      (ih fun line below => moves line (by omega))

theorem map_weight_numbered (start other : Int) (parts : List (List (List Char))) :
    (numbered start parts).map weight = (numbered other parts).map weight := by
  induction parts generalizing start other with
  | nil => rfl
  | cons part parts ih => exact congrArg (weight ⟨start, part⟩ :: ·) (ih _ _)

theorem weight_of_isBlank {chunk : Chunk} (blank : chunk.isBlank = true) : chunk.weight = 0 := by
  rw [weight, List.sum_eq_zero_iff_forall_eq_nat, List.forall_mem_map]
  exact fun line member => written_eq_zero_iff.mpr ((isBlank_iff chunk |>.mp blank).2 line member)

theorem sum_weight (chunks : List Chunk) :
    ((chunks.filter (!·.isBlank)).map weight).sum = (chunks.map weight).sum := by
  induction chunks with
  | nil => rfl
  | cons chunk chunks ih =>
    cases blank : chunk.isBlank with
    | true => simp [blank, ih, weight_of_isBlank blank]
    | false => simp [blank, ih]

end Chunk

/-! ### Tools -/

namespace Block
open Chunk

variable {content content' location workingDir model : String} {firstLine : Int} {tools : List Tool}

theorem parse_eq_ok_iff_chunks :
    parse content location workingDir model firstLine = .ok tools ↔
      let chunks := Chunk.ofLines firstLine (lines content.toList)
      (∀ chunk ∈ chunks, chunk.faults = []) ∧
        ∃ first others names, chunks.filter (!·.isBlank) = first :: others ∧
          localNames location [] ((first :: others).map Chunk.block) = .ok names ∧
          tools = ((first :: others).map Chunk.block).map
            (tool location workingDir model (names.put "" (idAt location first.start))) := by
  simp only [parse, readAll_eq, firstFault]
  generalize Chunk.ofLines firstLine (lines content.toList) = chunks
  split
  next number fault first =>
    have faulty : (number, fault) ∈ chunks.flatMap faults := List.mem_of_mem_head? first
    obtain ⟨chunk, member, wrong⟩ := List.mem_flatMap.mp faulty
    refine iff_of_false (by simp [bind, Except.bind]) ?_
    rintro ⟨sound, -⟩
    simp [sound chunk member] at wrong
  next none =>
    rw [List.head?_eq_none_iff, List.flatMap_eq_nil_iff] at none
    rw [and_iff_right none]
    cases chunks.filter (!·.isBlank) with
    | nil => simp [bind, Except.bind, throw, throwThe, MonadExceptOf.throw]
    | cons first others =>
      cases named : localNames location [] ((first :: others).map Chunk.block) with
      | error error =>
        rw [List.map_cons] at named
        simp [bind, Except.bind, named]
      | ok names =>
        rw [List.map_cons] at named
        have start : first.block.start = first.start := rfl
        simp [bind, Except.bind, pure, Except.pure, named, start, eq_comm]

variable {move : Int → Int} {label : String → String} (relabels : Relabels location move label)

section alike
include relabels

theorem localNames_of_alike {chunks chunks' : List Chunk}
    (pairs : List.Forall₂ (Alike move) chunks chunks') {names found : Entries String String}
    (named : localNames location names (chunks.map Chunk.block) = .ok found) :
    localNames location (names.mapValues label) (chunks'.map Chunk.block) =
      .ok (found.mapValues label) := by
  induction pairs generalizing names with
  | nil =>
    obtain rfl := Except.ok.inj named
    rfl
  | @cons one two chunks chunks' alike _ ih =>
    have name : two.block.name = one.block.name := by
      rw [Block.name, Block.name, block_eq, block_eq, alike.header]
    have id : idAt location two.start = label (idAt location one.start) := by
      rw [relabels, alike.start]
    rw [List.map_cons, localNames_cons] at named ⊢
    rw [name]
    split at named
    next nameless =>
      rw [if_pos nameless]
      exact ih named
    next some =>
      rw [if_neg some, Entries.has_mapValues]
      split at named
      next => cases named
      next fresh =>
        have start : two.block.start = two.start := rfl
        rw [if_neg fresh, start, id, ← Entries.mapValues_put]
        exact ih named

theorem tool_of_alike {one two : Chunk} (alike : Alike move one two)
    (names : Entries String String) :
    tool location workingDir model (names.mapValues label) two.block =
      (tool location workingDir model names one.block).renumber label move := by
  have header : two.block.header = one.block.header := by rw [block_eq, block_eq, alike.header]
  have start : two.block.start = move one.block.start := alike.start
  simp only [tool, Tool.renumber, header, alike.text, start, relabels one.block.start]

theorem parse_of_alike
    (pairs : List.Forall₂ (Alike move) (Chunk.ofLines firstLine (lines content.toList))
      (Chunk.ofLines firstLine (lines content'.toList)))
    (parsed : parse content location workingDir model firstLine = .ok tools) :
    parse content' location workingDir model firstLine =
      .ok (tools.map (Tool.renumber label move)) := by
  obtain ⟨sound, first, others, names, kept, named, rfl⟩ := parse_eq_ok_iff_chunks.mp parsed
  have both : List.Forall₂ (Alike move) ((Chunk.ofLines firstLine (lines content.toList)).filter
      (!·.isBlank)) ((Chunk.ofLines firstLine (lines content'.toList)).filter (!·.isBlank)) :=
    List.rel_filter (fun {one two} alike => by simp [alike.blank]) pairs
  rw [kept] at both
  cases kept' : (Chunk.ofLines firstLine (lines content'.toList)).filter (!·.isBlank) with
  | nil => simp [kept'] at both
  | cons first' others' =>
    rw [kept'] at both
    obtain ⟨alike, _⟩ := List.forall₂_cons.mp both
    refine parse_eq_ok_iff_chunks.mpr ⟨fun chunk member => ?_, first', others', names.mapValues label, kept',
      localNames_of_alike relabels both named, ?_⟩
    · obtain ⟨other, known, same⟩ := exists_left_of_forall₂ pairs member
      rw [faults_eq_nil_iff, same.header]
      exact faults_eq_nil_iff.mp (sound other known)
    · rw [alike.start, ← relabels, ← Entries.mapValues_put, List.map_map, List.map_map, List.map_map]
      rw [← List.forall₂_eq_eq_eq, List.forall₂_map_left_iff, List.forall₂_map_right_iff]
      exact both.imp fun one two same => (tool_of_alike relabels same _).symm

end alike

theorem sum_written (parsed : parse content location workingDir model firstLine = .ok tools) :
    (tools.map fun tool => written tool.instructions.toList).sum =
      ((Chunk.ofLines firstLine (lines content.toList)).map weight).sum := by
  obtain ⟨-, first, others, names, kept, -, rfl⟩ := parse_eq_ok_iff_chunks.mp parsed
  rw [← sum_weight, kept, List.map_map, List.map_map]
  congr 1
  refine List.map_congr_left fun chunk _ => ?_
  rw [Function.comp_apply, Function.comp_apply, tool, String.toList_ofList, written_text]

section behind
variable {front : List Chunk} {parts : List (List (List Char))} {added part : List (List Char)}
  {place next : Int} {others : List Tool} (fillers : ∀ line ∈ added, IsFiller line)
  (chunks : Chunk.ofLines firstLine (lines content.toList) =
    front ++ ⟨place, part⟩ :: numbered next parts)
  (chunks' : Chunk.ofLines firstLine (lines content'.toList) =
    front ++ ⟨place, added ++ part⟩ :: numbered (next + added.length) parts)
include fillers chunks chunks'

theorem parse_of_inSight (sight : InSight added part) (above : ∀ chunk ∈ front, chunk.start ≤ place)
    (below : place < next) (relabels : Relabels location (moveBehind place added.length) label)
    (parsed : parse content location workingDir model firstLine = .ok tools) :
    parse content' location workingDir model firstLine =
      .ok (tools.map (Tool.renumber label (moveBehind place added.length))) := by
  refine parse_of_alike relabels ?_ parsed
  rw [chunks, chunks']
  refine List.rel_append (List.forall₂_same.mpr fun chunk member => ?_) (.cons ?_ ?_)
  · exact alike_of_lines (if_pos (above chunk member)).symm rfl
  · exact alike_of_inSight fillers sight (if_pos (Int.le_refl place))
  · refine alike_numbered fun line later => if_neg ?_
    omega

section hidden
variable (hidden : ¬ InSight added part)
  (parsed' : parse content' location workingDir model firstLine = .ok others)
include hidden parsed'

theorem instructions_ne_of_hidden
    (parsed : parse content location workingDir model firstLine = .ok tools) :
    others.map (·.instructions) ≠ tools.map (·.instructions) := by
  intro same
  have more : weight ⟨place, part⟩ < weight ⟨place, added ++ part⟩ := weight_lt fillers hidden
  have total : (others.map fun tool => written tool.instructions.toList).sum =
      (tools.map fun tool => written tool.instructions.toList).sum := by
    have each := congrArg (fun texts => (texts.map fun text => written text.toList).sum) same
    simpa only [List.map_map, Function.comp_def] using each
  have later := map_weight_numbered next (next + added.length) parts
  rw [sum_written parsed', sum_written parsed, chunks, chunks'] at total
  simp only [List.map_append, List.map_cons, List.sum_append, List.sum_cons, later] at total
  omega

omit chunks in
theorem exists_nameless_of_hidden :
    ∃ tool ∈ others, tool.origin.line = place ∧ tool.name = "" ∧
      tool.instructions =
        String.ofList (trim (joinWith ['\n'] (added.dropWhile isComment ++ part))) := by
  obtain ⟨header, body⟩ := parts_of_hidden fillers hidden
  have more : weight ⟨place, part⟩ < weight ⟨place, added ++ part⟩ := weight_lt fillers hidden
  obtain ⟨-, first, blocks, names, kept, -, rfl⟩ := parse_eq_ok_iff_chunks.mp parsed'
  have member : ⟨place, added ++ part⟩ ∈ first :: blocks := by
    rw [← kept, chunks', List.mem_filter]
    refine ⟨by simp, ?_⟩
    rw [Bool.not_eq_true', ← Bool.not_eq_true]
    intro blank
    rw [weight_of_isBlank blank] at more
    exact absurd more (Nat.not_lt_zero _)
  refine ⟨_, List.mem_map_of_mem (List.mem_map_of_mem member), rfl, ?_, ?_⟩
  · rw [block_eq]
    simp only [tool, header]
    rfl
  · rw [block_eq]
    simp only [tool, Block.text, Chunk.body, body]

end hidden
end behind

/-- Comments in front of a block leave the tools as they are; blank lines do so if the block has no
header. Else all of the block is text from the first blank line on, without a name. -/
theorem parse_behind_fillers {before added rest : List (List Char)}
    (whole : lines content.toList = before ++ rest)
    (whole' : lines content'.toList = before ++ added ++ rest)
    (ends : ∀ line ∈ before.getLast?, isSeparator line = true)
    (fillers : ∀ line ∈ added, IsFiller line)
    (accepted : parse content location workingDir model firstLine = .ok tools) :
    let place := firstLine + before.length
    let move := moveBehind place added.length
    (InSight added (firstPart rest) → ∃ label, Relabels location move label ∧
      parse content' location workingDir model firstLine =
        .ok (tools.map (Tool.renumber label move))) ∧
      (¬ InSight added (firstPart rest) → ∀ {others},
        parse content' location workingDir model firstLine = .ok others →
          others.map (·.instructions) ≠ tools.map (·.instructions) ∧
            ∃ tool ∈ others, tool.origin.line = place ∧ tool.name = "" ∧
              tool.instructions = String.ofList (trim (joinWith ['\n']
                (added.dropWhile isComment ++ firstPart rest)))) := by
  intro place move
  obtain ⟨front, above, cut⟩ := exists_front firstLine ends
  obtain ⟨parts, own, own'⟩ := exists_later place fillers rest
  have chunks := cut rest
  have chunks' := cut (added ++ rest)
  rw [own, ← whole] at chunks
  rw [own', ← List.append_assoc, ← whole'] at chunks'
  constructor
  · intro sight
    obtain ⟨label, relabels⟩ := exists_relabels location move
    have below : place < place + (firstPart rest).length + 1 := by omega
    exact ⟨label, relabels, parse_of_inSight fillers chunks chunks' sight
      (fun chunk member => Int.le_of_lt (above chunk member)) below relabels accepted⟩
  · intro hidden others parsed
    exact ⟨instructions_ne_of_hidden fillers chunks chunks' hidden parsed accepted,
      exists_nameless_of_hidden fillers chunks' hidden parsed⟩

/-- Three recipes, with lines in front of the second one. -/
def recipes (added : String) : String :=
  "tools: b\n---\n" ++ added ++ "name: b\nStop.\n---\nname: c"

theorem recipes_behind_fillers :
    let parse (added : String) := parse (recipes added) "/w/a.gpt" "/w" "m" 1
    ∃ tools, parse "" = .ok tools ∧
      (∃ label, Relabels "/w/a.gpt" (moveBehind 3 2) label ∧
        parse "# The second.\n  #One.\n" = .ok (tools.map (Tool.renumber label (moveBehind 3 2)))) ∧
      ∃ others, parse "\n" = .ok others ∧
        ∃ tool ∈ others, tool.origin.line = 3 ∧ tool.name = "" ∧
          tool.instructions = "name: b\nStop." := by
  intro parse
  have parses (added : String) (some : (parse added).toOption.isSome = true) :
      ∃ tools, parse added = .ok tools := by
    obtain ⟨tools, known⟩ := Option.isSome_iff_exists.mp some
    exact ⟨tools, toOption_eq_some.mp known⟩
  let before := ["tools: b".toList, "---".toList]
  let comments := ["# The second.".toList, "  #One.".toList]
  let rest := ["name: b".toList, "Stop.".toList, "---".toList, "name: c".toList]
  have whole : lines (recipes "").toList = before ++ rest := by decide +kernel
  have ends : ∀ line ∈ before.getLast?, isSeparator line = true := by decide +kernel
  obtain ⟨tools, accepted⟩ := parses "" (by decide +kernel)
  obtain ⟨others, parsed⟩ := parses "\n" (by decide +kernel)
  refine ⟨tools, accepted, ?_, others, parsed, ?_⟩
  · have fillers : ∀ line ∈ comments, IsFiller line := by decide +kernel
    exact (parse_behind_fillers whole (by decide +kernel) ends fillers accepted).1
      (.inl (by decide +kernel))
  · have fillers : ∀ line ∈ [[]], IsFiller line := by decide +kernel
    have hidden : ¬ InSight [[]] (firstPart rest) := by decide +kernel
    obtain ⟨-, tool, member, line, name, text⟩ :=
      (parse_behind_fillers whole (by decide +kernel) ends fillers accepted).2 hidden parsed
    exact ⟨tool, member, line, name, text.trans (by decide +kernel)⟩

end Block

end ToolGraph
