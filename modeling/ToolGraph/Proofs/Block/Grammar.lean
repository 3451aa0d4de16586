import Mathlib.Data.List.Induction
import ToolGraph.Proofs.Block

/-!
The grammar of native sources, and that the parser follows it. A source is cut into chunks at the
separators first; then each chunk is read by itself, and at last the names of all are compared.
-/
namespace ToolGraph
open Text

namespace HeaderLine

def fault? (line : HeaderLine) : Option ParseFault :=
  let text := String.ofList line.value
  match line.key with
  | .name | .description | .model | .tools => none
  | .argument => if (Header.readArgument? line.value).isSome then none else some (.badArgument text)
  | .internalPrompt | .jsonResponse | .cache =>
    if (Header.readBool? line.value).isSome then none else some (.badBoolean line.written text)
  | .maxTokens =>
    if (Number.readInt? line.value).isSome then none else some (.badInteger line.written text)
  | .temperature =>
    if (Number.readFloat? line.value).isSome then none else some (.badNumber line.written text)

def records (line : HeaderLine) : Bool :=
  line.key != .tools || !(Header.readTools line.value).isEmpty

end HeaderLine

namespace Header

def valuesOf (key : HeaderKey) (lines : List HeaderLine) : List (List Char) :=
  (lines.filter (·.key == key)).map (·.value)

def lastOf {α : Type} (key : HeaderKey) (read : List Char → Option α) (lines : List HeaderLine) :
    Option α :=
  (valuesOf key lines).getLast?.bind read

def ofLines (lines : List HeaderLine) : Header where
  name := lastOf .name (fun value => some (String.ofList value)) lines
  description := lastOf .description (fun value => some (String.ofList value)) lines
  modelName := lastOf .model (fun value => some (String.ofList value)) lines
  maxTokens := lastOf .maxTokens Number.readInt? lines
  cache := lastOf .cache readBool? lines
  jsonResponse := lastOf .jsonResponse readBool? lines
  temperature := lastOf .temperature Number.readFloat? lines
  internalPrompt := lastOf .internalPrompt readBool? lines
  tools := (valuesOf .tools lines).flatMap readTools
  arguments := Entries.ofPairs ((valuesOf .argument lines).filterMap readArgument?)

end Header

/-- The lines between two separators, and the number of the first one. -/
structure Chunk where
  start : Int
  lines : List (List Char)

namespace Chunk

def numbered (start : Int) : List (List (List Char)) → List Chunk
  | [] => []
  | part :: parts => ⟨start, part⟩ :: numbered (start + part.length + 1) parts

def ofLines (start : Int) (lines : List (List Char)) : List Chunk :=
  numbered start (lines.splitOnP Block.isSeparator)

def isHeaderLine (line : List Char) : Bool :=
  Block.isComment line || (Block.headerLine? line).isSome

/-- The entries of header lines with their numbers. Comments have none. -/
def entriesFrom (number : Int) : List (List Char) → List (Int × HeaderLine)
  | [] => []
  | line :: lines =>
    (if Block.isComment line then [] else ((Block.headerLine? line).map (number, ·)).toList) ++
      entriesFrom (number + 1) lines

/-- The entries of the header, which is the longest prefix of lines that go on with one. -/
def entries (chunk : Chunk) : List (Int × HeaderLine) :=
  entriesFrom chunk.start (chunk.lines.takeWhile isHeaderLine)

def body (chunk : Chunk) : List (List Char) := chunk.lines.dropWhile isHeaderLine

/-- The bad values of entries with the numbers of their lines. -/
def faultsOf (entries : List (Int × HeaderLine)) : List (Int × ParseFault) :=
  entries.filterMap fun entry => entry.2.fault?.map (entry.1, ·)

def faults (chunk : Chunk) : List (Int × ParseFault) := faultsOf chunk.entries

def isBlank (chunk : Chunk) : Bool :=
  !chunk.entries.any (·.2.records) && chunk.body.all fun line => (trim line).isEmpty

def block (chunk : Chunk) : Block :=
  ⟨chunk.start, Header.ofLines (chunk.entries.map (·.2)), chunk.body⟩

end Chunk

namespace Block

/-- Two blocks have names that differ in case at most. -/
def agree (one two : Block) : Bool := one.name != "" && lower one.name == lower two.name

/-- The first block whose name agrees with that of an earlier one. -/
def clash? (blocks : List Block) : Option Block :=
  (blocks.zipIdx.find? fun entry => (blocks.take entry.2).any (agree entry.1)).map (·.1)

def namedIds (location : String) (blocks : List Block) : Entries String String :=
  (blocks.filter (·.name != "")).map fun block => (lower block.name, idAt location block.start)

/-- What a source means. A bad value comes before two names that agree, and these before a source
that holds nothing. -/
def meaning (content location workingDir model : String) (firstLine : Int) :
    Except Error (List Tool) :=
  let chunks := Chunk.ofLines firstLine (lines content.toList)
  match (chunks.flatMap Chunk.faults).head? with
  | some (number, fault) => .error (.parse location number fault)
  | none =>
    let blocks := (chunks.filter (!·.isBlank)).map Chunk.block
    match clash? blocks, blocks with
    | some block, _ => .error (.parse location block.start (.duplicateName block.name))
    | none, [] => .error (.parse location 0 .noTools)
    | none, first :: others =>
      let localTools := namedIds location (first :: others) ++ [("", idAt location first.start)]
      .ok ((first :: others).map (tool location workingDir model localTools))

end Block

/-! ### Headers -/

namespace Header

theorem valuesOf_append (key : HeaderKey) (lines : List HeaderLine) (line : HeaderLine) :
    valuesOf key (lines ++ [line]) =
      valuesOf key lines ++ if line.key == key then [line.value] else [] := by
  simp only [valuesOf, List.filter_append, List.map_append]
  split
  next same => simp [same]
  next other => simp [other]

theorem lastOf_append {α : Type} (key : HeaderKey) (read : List Char → Option α)
    (lines : List HeaderLine) (line : HeaderLine) :
    lastOf key read (lines ++ [line]) =
      if line.key == key then read line.value else lastOf key read lines := by
  rw [lastOf, valuesOf_append]
  split
  next => simp
  next => simp [lastOf]

theorem add_ofLines (lines : List HeaderLine) (line : HeaderLine) :
    (ofLines lines).add line =
      match line.fault? with
      | some fault => .error fault
      | none => .ok (ofLines (lines ++ [line])) := by
  obtain ⟨key, written, value⟩ := line
  have put : ∀ pairs : List (String × String), ∀ pair : String × String,
      Entries.ofPairs (pairs ++ [pair]) = (Entries.ofPairs pairs).put pair.1 pair.2 := by
    simp [Entries.ofPairs]
  cases key
  case name | description | model | tools =>
    simp [add, HeaderLine.fault?, ofLines, lastOf_append, valuesOf_append]
  case argument =>
    cases known : readArgument? value with
    | none => simp [add, HeaderLine.fault?, known]
    | some pair =>
      simp [add, HeaderLine.fault?, ofLines, lastOf_append, valuesOf_append, known, put]
  case internalPrompt | jsonResponse | cache =>
    cases known : readBool? value with
    | none => simp [add, HeaderLine.fault?, known]
    | some flag => simp [add, HeaderLine.fault?, ofLines, lastOf_append, valuesOf_append, known]
  case maxTokens =>
    cases known : Number.readInt? value with
    | none => simp [add, HeaderLine.fault?, known]
    | some number => simp [add, HeaderLine.fault?, ofLines, lastOf_append, valuesOf_append, known]
  case temperature =>
    cases known : Number.readFloat? value with
    | none => simp [add, HeaderLine.fault?, known]
    | some number => simp [add, HeaderLine.fault?, ofLines, lastOf_append, valuesOf_append, known]

theorem isEmpty_of_add {header added : Header} {line : HeaderLine}
    (known : header.add line = .ok added) : added.isEmpty = (header.isEmpty && !line.records) := by
  have put : ∀ pair : String × String,
      (Entries.put header.arguments pair.1 pair.2).isEmpty = false := by
    intro pair
    cases held : header.arguments with
    | nil => rfl
    | cons entry rest =>
      simp only [Entries.put]
      split <;> rfl
  obtain ⟨key, written, value⟩ := line
  cases key
  case name | description | model =>
    obtain rfl := Except.ok.inj known
    simp [isEmpty, HeaderLine.records]
  case tools =>
    obtain rfl := Except.ok.inj known
    cases earlier : header.tools <;>
      simp [isEmpty, HeaderLine.records, earlier, Bool.and_assoc, Bool.and_comm]
  case argument =>
    simp only [add] at known
    split at known
    next pair _ =>
      obtain rfl := Except.ok.inj known
      simp [isEmpty, HeaderLine.records, put (_, _)]
    next => cases known
  case internalPrompt | jsonResponse | cache | maxTokens | temperature =>
    simp only [add] at known
    split at known
    next =>
      obtain rfl := Except.ok.inj known
      simp [isEmpty, HeaderLine.records]
    next => cases known

theorem isEmpty_ofLines {lines : List HeaderLine} (sound : ∀ line ∈ lines, line.fault? = none) :
    (ofLines lines).isEmpty = !lines.any (·.records) := by
  induction lines using List.reverseRecOn with
  | nil => rfl
  | append_singleton lines line ih =>
    obtain ⟨earlier, last⟩ := List.forall_mem_append.mp sound
    have added := add_ofLines lines line
    rw [last line List.mem_cons_self] at added
    rw [isEmpty_of_add added, ih earlier]
    simp

end Header

/-! ### Chunks -/

namespace Block
open Chunk

def firstFault (location : String) (faults : List (Int × ParseFault)) (blocks : List Block) :
    Except Error (List Block) :=
  match faults.head? with
  | some (number, fault) => .error (.parse location number fault)
  | none => .ok blocks

theorem map_firstFault (location : String) (faults : List (Int × ParseFault)) (blocks : List Block)
    (block : Block) :
    (firstFault location faults blocks).map (block :: ·) =
      firstFault location faults (block :: blocks) := by
  unfold firstFault
  split <;> rfl

/-- Reading goes on with the rest of a chunk, in its header or in its text, and then with the chunks
after it. -/
theorem readLines_eq (location : String) {texts part : List (List Char)}
    {parts : List (List (List Char))} (cut : texts.splitOnP isSeparator = part :: parts)
    (line start : Int) :
    let later := numbered (line + part.length + 1) parts
    (∀ done, readLines location line ⟨start, Header.ofLines done, []⟩ true texts =
      let own := entriesFrom line (part.takeWhile isHeaderLine)
      firstFault location (faultsOf own ++ later.flatMap faults)
        (⟨start, Header.ofLines (done ++ own.map (·.2)), part.dropWhile isHeaderLine⟩ ::
          later.map Chunk.block)) ∧
      ∀ header body, readLines location line ⟨start, header, body⟩ false texts =
        firstFault location (later.flatMap faults)
          (⟨start, header, body ++ part⟩ :: later.map Chunk.block) := by
  induction texts generalizing part parts line start with
  | nil =>
    obtain ⟨rfl, rfl⟩ := List.cons.inj cut
    exact ⟨fun done => by simp [readLines, numbered, entriesFrom, faultsOf, firstFault],
      fun header body => by simp [readLines, numbered, firstFault]⟩
  | cons text rest ih =>
    obtain ⟨next, others, known⟩ := List.exists_cons_of_ne_nil (List.splitOnP_ne_nil isSeparator rest)
    rw [List.splitOnP_cons_eq_if_modifyHead, known] at cut
    by_cases separates : isSeparator text = true
    · rw [if_pos separates] at cut
      obtain ⟨rfl, rfl⟩ := List.cons.inj cut
      have following : readLines location (line + 1) (opened (line + 1)) true rest =
          firstFault location ((numbered (line + 1) (next :: others)).flatMap faults)
            ((numbered (line + 1) (next :: others)).map Chunk.block) :=
        (ih known (line + 1) (line + 1)).1 []
      constructor
      · intro done
        simp only [readLines, if_pos separates, following, map_firstFault]
        simp [entriesFrom, faultsOf]
      · intro header body
        simp only [readLines, if_pos separates, following, map_firstFault]
        simp
    · rw [if_neg separates] at cut
      obtain ⟨rfl, rfl⟩ := List.cons.inj cut
      have place : line + ((text :: next).length : Nat) + 1 = line + 1 + next.length + 1 := by
        simp only [List.length_cons]
        omega
      obtain ⟨inHeader, inText⟩ := ih known (line + 1) start
      simp only [readLines, if_neg separates, place]
      constructor
      · intro done
        by_cases comment : isComment text = true
        · have goes : isHeaderLine text = true := by simp [isHeaderLine, comment]
          simpa [comment, goes, entriesFrom] using inHeader done
        · cases read : headerLine? text with
          | some entry =>
            have goes : isHeaderLine text = true := by simp [isHeaderLine, read]
            simp only [comment, goes, read, Header.add_ofLines, List.takeWhile_cons, entriesFrom,
              Bool.and_false, if_true, if_false, Bool.false_eq_true]
            cases fault : entry.fault? with
            | some fault => simp [faultsOf, firstFault, fault]
            | none => simpa [faultsOf, fault, goes] using inHeader (done ++ [entry])
          | none =>
            have stops : isHeaderLine text = false := by simp [isHeaderLine, comment, read]
            simpa [comment, stops, read, entriesFrom, faultsOf] using
              inText (Header.ofLines done) [text]
      · intro header body
        simpa using inText header (body ++ [text])

theorem isEmpty_block {chunk : Chunk} (sound : chunk.faults = []) :
    chunk.block.isEmpty = chunk.isBlank := by
  have each : ∀ line ∈ chunk.entries.map (·.2), line.fault? = none := by
    intro line member
    obtain ⟨entry, known, rfl⟩ := List.mem_map.mp member
    simpa using List.filterMap_eq_nil_iff.mp sound entry known
  rw [isEmpty, Chunk.block, Header.isEmpty_ofLines each]
  simp [Chunk.isBlank, Function.comp_def]

theorem readAll_eq (content location : String) (firstLine : Int) :
    readAll content location firstLine =
      let chunks := Chunk.ofLines firstLine (lines content.toList)
      firstFault location (chunks.flatMap faults) ((chunks.filter (!·.isBlank)).map Chunk.block) := by
  obtain ⟨part, parts, cut⟩ := List.exists_cons_of_ne_nil
    (List.splitOnP_ne_nil isSeparator (lines content.toList))
  have read : readLines location firstLine (opened firstLine) true (lines content.toList) =
      firstFault location ((numbered firstLine (part :: parts)).flatMap faults)
        ((numbered firstLine (part :: parts)).map Chunk.block) :=
    (readLines_eq location cut firstLine firstLine).1 []
  simp only [readAll, read, Chunk.ofLines, cut]
  unfold firstFault
  split
  next => rfl
  next sound =>
    rw [List.head?_eq_none_iff, List.flatMap_eq_nil_iff] at sound
    rw [Except.map, List.filter_map]
    congr 2
    refine List.filter_congr fun chunk member => ?_
    rw [Function.comp_apply, isEmpty_block (sound chunk member)]

/-! ### Names -/

def Apart (blocks : List Block) : Prop :=
  blocks.Pairwise fun earlier later => agree later earlier = false

theorem apart_take {blocks : List Block} {count : Nat}
    (none : ∀ place (below : place < blocks.length), place < count →
      (blocks.take place).any (agree blocks[place]) = false) : Apart (blocks.take count) := by
  refine List.pairwise_iff_getElem.mpr fun first second _ below before => ?_
  rw [List.length_take] at below
  have found := List.any_eq_false.mp (none second (by omega) (by omega)) blocks[first]
    (List.mem_take_iff_getElem.mpr ⟨first, by omega, rfl⟩)
  simpa using found

theorem apart_of_clash? {blocks : List Block} (none : clash? blocks = none) : Apart blocks := by
  rw [← List.take_length (l := blocks)]
  refine apart_take fun place below _ => ?_
  have other := List.find?_eq_none.mp (Option.map_eq_none_iff.mp none) (blocks[place], place)
    (List.mk_mem_zipIdx_iff_getElem?.mpr (List.getElem?_eq_getElem below))
  simpa using other

theorem exists_of_clash? {blocks : List Block} {block : Block} (some : clash? blocks = some block) :
    ∃ before after, blocks = before ++ block :: after ∧ Apart before ∧
      ∃ other ∈ before, agree block other = true := by
  obtain ⟨entry, found, rfl⟩ := Option.map_eq_some_iff.mp some
  obtain ⟨agrees, place, below, rfl, first⟩ := List.find?_eq_some_iff_getElem.mp found
  rw [List.length_zipIdx] at below
  simp only [List.getElem_zipIdx, Nat.zero_add] at agrees first ⊢
  refine ⟨blocks.take place, blocks.drop (place + 1), ?_, ?_, List.any_eq_true.mp agrees⟩
  · rw [List.getElem_cons_drop, List.take_append_drop]
  · exact apart_take fun other _ before => by simpa using first other before

theorem localNames_cons (location : String) (names : Entries String String) (block : Block)
    (blocks : List Block) :
    localNames location names (block :: blocks) =
      if block.name.isEmpty then localNames location names blocks
      else if names.has (lower block.name) then
        .error (.parse location block.start (.duplicateName block.name))
      else localNames location (names.put (lower block.name) (idAt location block.start)) blocks := rfl

theorem localNames_append (location : String) (names : Entries String String)
    (first second : List Block) :
    localNames location names (first ++ second) =
      localNames location names first >>= (localNames location · second) := by
  induction first generalizing names with
  | nil => rfl
  | cons block blocks ih =>
    simp only [List.cons_append, localNames_cons]
    split
    next => exact ih _
    next =>
      split
      next => rfl
      next => exact ih _

theorem localNames_of_apart (location : String) {names : Entries String String}
    {blocks : List Block} (apart : Apart blocks)
    (fresh : ∀ block ∈ blocks, block.name ≠ "" → lower block.name ∉ names.keys) :
    localNames location names blocks = .ok (names ++ namedIds location blocks) := by
  induction blocks generalizing names with
  | nil => simp [localNames, namedIds]
  | cons block blocks ih =>
    obtain ⟨others, apart⟩ := List.pairwise_cons.mp apart
    obtain ⟨own, later⟩ := List.forall_mem_cons.mp fresh
    rw [localNames_cons]
    split
    next nameless =>
      have nameless : block.name = "" := by simpa using nameless
      rw [ih apart later]
      simp [namedIds, nameless]
    next named =>
      have named : block.name ≠ "" := by simpa using named
      have new : names.has (lower block.name) = false := Entries.has_eq_false_iff.mpr (own named)
      have fresh : ∀ other ∈ blocks, other.name ≠ "" →
          lower other.name ∉ (names.put (lower block.name) (idAt location block.start)).keys := by
        intro other member some known
        rcases Entries.mem_keys_put.mp known with same | old
        · have := others other member
          simp [agree, some, same] at this
        · exact later other member some old
      rw [new, if_neg Bool.false_ne_true, ih apart fresh, Entries.put_of_fresh (own named)]
      simp [namedIds, named]

theorem localNames_of_clash (location : String) {before : List Block} (after : List Block)
    {block other : Block} (apart : Apart before) (member : other ∈ before)
    (agrees : agree block other = true) :
    localNames location [] (before ++ block :: after) =
      .error (.parse location block.start (.duplicateName block.name)) := by
  obtain ⟨some, same⟩ : block.name ≠ "" ∧ lower block.name = lower other.name := by
    simpa [agree] using agrees
  have named : other.name ≠ "" := by
    rintro empty
    exact lower_ne_empty some (same.trans (congrArg lower empty))
  have taken : (namedIds location before).has (lower block.name) = true := by
    refine Entries.has_iff.mpr ?_
    simp only [Entries.keys, namedIds, List.map_map]
    exact List.mem_map.mpr ⟨other, List.mem_filter.mpr ⟨member, by simpa using named⟩, same.symm⟩
  rw [localNames_append, localNames_of_apart location apart (by simp [Entries.keys])]
  change localNames location ([] ++ namedIds location before) (block :: after) = _
  rw [localNames_cons, if_neg (by simpa using some), List.nil_append, if_pos taken]

/-- The empty name is free for the first tool. -/
theorem put_namedIds (location : String) (blocks : List Block) (id : String) :
    (namedIds location blocks).put "" id = namedIds location blocks ++ [("", id)] := by
  refine Entries.put_of_fresh (fun known => ?_) id
  obtain ⟨block, member, empty⟩ : ∃ block ∈ blocks.filter (·.name != ""), lower block.name = "" := by
    simpa [Entries.keys, namedIds] using known
  exact lower_ne_empty (by simpa using (List.mem_filter.mp member).2) empty

/-- The parser gives every source its meaning. -/
theorem parse_eq_meaning (content location workingDir model : String) (firstLine : Int) :
    parse content location workingDir model firstLine =
      meaning content location workingDir model firstLine := by
  simp only [parse, readAll_eq, meaning, firstFault]
  generalize Chunk.ofLines firstLine (lines content.toList) = chunks
  split
  next => rfl
  next sound =>
    generalize (chunks.filter (!·.isBlank)).map Chunk.block = blocks
    split
    next block clash =>
      obtain ⟨before, after, rfl, apart, other, member, agrees⟩ := exists_of_clash? clash
      obtain ⟨first, rest, rfl⟩ := List.exists_cons_of_ne_nil (List.ne_nil_of_mem member)
      have fails := localNames_of_clash location after apart member agrees
      rw [List.cons_append] at fails ⊢
      simp only [bind, Except.bind, List.head?_cons, fails]
    next => rfl
    next first others none =>
      have names : localNames location [] (first :: others) =
          .ok (namedIds location (first :: others)) :=
        localNames_of_apart location (apart_of_clash? none) (by simp [Entries.keys])
      simp only [bind, Except.bind, List.head?_cons, names, put_namedIds]
      rfl

end Block

end ToolGraph
