import ToolGraph.Proofs.CommandLine
import ToolGraph.Proofs.Load.Exchanged

/-!
Tables on the data channel. A plain one can be read back if and only if no cell holds a tab or a
newline, since nothing sets those of a cell apart from those of the table. In a table as JSON each cell
can be read. A row is printed if its texts have an encoding.
-/
namespace ToolGraph

namespace Output
variable {headers row : List String} {rows : List (List String)} {width height : Nat}

/-- A cell ends neither its field nor its line. -/
def Fits (cell : String) : Prop := '\t' ∉ cell.toList ∧ '\n' ∉ cell.toList

instance (cell : String) : Decidable (Fits cell) := inferInstanceAs (Decidable (_ ∧ _))

def IsTable (width height : Nat) (text : String) : Prop :=
  ∃ lines : List (List Char), lines.length = height ∧ text.toList = lines.flatMap (· ++ ['\n']) ∧
    ∀ line ∈ lines, '\n' ∉ line ∧ (line.splitOn '\t').length = width

def readTable (text : String) : List (List String) :=
  (text.toList.splitOn '\n').dropLast.map (fun line => (line.splitOn '\t').map String.ofList)

def tableText (rows : List (List String)) : String :=
  String.join (rows.map (fun row => tableLine row ++ "\n"))

theorem toList_tableLine (row : List String) :
    (tableLine row).toList = ['\t'].intercalate (row.map String.toList) :=
  String.toList_intercalate

theorem toList_tableText (rows : List (List String)) :
    (tableText rows).toList = (rows.map fun row => (tableLine row).toList).flatMap (· ++ ['\n']) := by
  simp [tableText, List.flatMap_map]

/-! ### Marks -/

theorem length_splitOn (mark : Char) (line : List Char) :
    (line.splitOn mark).length = line.count mark + 1 := by
  induction line with
  | nil => simp
  | cons c line ih =>
    rw [List.splitOn_cons_eq_if_modifyHead, List.count_cons]
    split
    next => rw [List.length_cons, ih]
    next => rw [List.length_modifyHead, ih]

theorem splitOn_lines {mark : Char} {lines : List (List Char)} (free : ∀ line ∈ lines, mark ∉ line) :
    (lines.flatMap (· ++ [mark])).splitOn mark = lines ++ [[]] := by
  induction lines with
  | nil => simp
  | cons line lines ih =>
    obtain ⟨first, others⟩ := List.forall_mem_cons.mp free
    rw [List.flatMap_cons, List.append_assoc, List.singleton_append,
      List.splitOn_append_cons_self_of_not_mem first, ih others, List.cons_append]

def occurrences (c : Char) (cells : List String) : Nat := (cells.map (·.toList.count c)).sum

theorem occurrences_append (c : Char) (cells more : List String) :
    occurrences c (cells ++ more) = occurrences c cells + occurrences c more := by
  simp [occurrences]

theorem occurrences_eq_zero_iff {c : Char} {cells : List String} :
    occurrences c cells = 0 ↔ ∀ cell ∈ cells, c ∉ cell.toList := by
  simp [occurrences, List.sum_eq_zero_iff, List.count_eq_zero]

theorem count_tableLine (c : Char) (full : row.length = width + 1) :
    (tableLine row).toList.count c = occurrences c row + width * ['\t'].count c := by
  induction row generalizing width with
  | nil => simp at full
  | cons cell row ih =>
    rw [toList_tableLine] at ih ⊢
    cases row with
    | nil =>
      obtain rfl : width = 0 := by simpa using full.symm
      simp [occurrences]
    | cons next row =>
      obtain ⟨width, rfl⟩ : ∃ less, width = less + 1 := ⟨row.length, by simpa using full.symm⟩
      have rest := @ih width (by simpa using full)
      rw [List.map_cons, List.intercalate_cons_of_ne_nil (by simp), List.count_append,
        List.count_append, rest, Nat.succ_mul]
      simp only [occurrences, List.map_cons, List.sum_cons]
      omega

theorem count_tableText (c : Char) (full : ∀ row ∈ rows, row.length = width + 1) :
    (tableText rows).toList.count c =
      occurrences c rows.flatten + rows.length * (width * ['\t'].count c + ['\n'].count c) := by
  induction rows with
  | nil => simp [tableText, occurrences]
  | cons row rows ih =>
    obtain ⟨first, others⟩ := List.forall_mem_cons.mp full
    have rest := ih others
    rw [toList_tableText] at rest ⊢
    rw [List.map_cons, List.flatMap_cons, List.count_append, List.count_append, rest,
      count_tableLine c first, List.flatten_cons, occurrences_append, List.length_cons, Nat.succ_mul]
    omega

theorem IsTable.count_eq {text : String} (table : IsTable (width + 1) height text) (c : Char)
    (mark : c = '\t' ∨ c = '\n') :
    text.toList.count c = height * (width * ['\t'].count c + ['\n'].count c) := by
  obtain ⟨lines, rfl, spelled, each⟩ := table
  rw [spelled]
  clear spelled
  induction lines with
  | nil => simp
  | cons line lines ih =>
    obtain ⟨⟨free, fields⟩, others⟩ := List.forall_mem_cons.mp each
    rw [length_splitOn] at fields
    have here : line.count c = width * ['\t'].count c := by
      rcases mark with rfl | rfl
      · simpa using fields
      · simpa using List.count_eq_zero.mpr free
    rw [List.flatMap_cons, List.count_append, List.count_append, ih others, here, List.length_cons,
      Nat.succ_mul]
    omega

/-! ### Reading a table -/

/-- The lines of a table are as many as its rows, with a field for each cell, if no cell has a mark
within: any mark there is one more than the rows need. -/
theorem isTable_tableText_iff (full : ∀ row ∈ rows, row.length = width + 1) :
    IsTable (width + 1) rows.length (tableText rows) ↔ ∀ row ∈ rows, ∀ cell ∈ row, Fits cell := by
  constructor
  · intro table row member cell own
    have within : cell ∈ rows.flatten := List.mem_flatten.mpr ⟨row, member, own⟩
    have none : ∀ c, c = '\t' ∨ c = '\n' → c ∉ cell.toList := by
      intro c mark
      have counted := (count_tableText c full).symm.trans (table.count_eq c mark)
      exact occurrences_eq_zero_iff.mp (by omega) cell within
    exact ⟨none _ (.inl rfl), none _ (.inr rfl)⟩
  · intro fit
    refine ⟨rows.map fun row => (tableLine row).toList, List.length_map .., toList_tableText rows, ?_⟩
    simp only [List.forall_mem_map]
    intro row member
    have tabs : occurrences '\t' row = 0 :=
      occurrences_eq_zero_iff.mpr fun cell own => (fit row member cell own).1
    have newlines : occurrences '\n' row = 0 :=
      occurrences_eq_zero_iff.mpr fun cell own => (fit row member cell own).2
    constructor
    · rw [← List.count_eq_zero, count_tableLine '\n' (full row member), newlines]
      simp
    · rw [length_splitOn, count_tableLine '\t' (full row member), tabs]
      simp

theorem readTable_tableText (some : ∀ row ∈ rows, row ≠ [])
    (fit : ∀ row ∈ rows, ∀ cell ∈ row, Fits cell) : readTable (tableText rows) = rows := by
  have lines : ∀ line ∈ rows.map (fun row => (tableLine row).toList), '\n' ∉ line := by
    simp only [List.forall_mem_map]
    intro row member
    have free : occurrences '\n' row = 0 :=
      occurrences_eq_zero_iff.mpr fun cell own => (fit row member cell own).2
    obtain ⟨width, full⟩ := Nat.exists_eq_add_one_of_ne_zero
      (List.length_pos_of_ne_nil (some row member)).ne'
    rw [← List.count_eq_zero, count_tableLine '\n' full, free]
    simp
  rw [readTable, toList_tableText, splitOn_lines lines, List.dropLast_concat, List.map_map]
  refine (List.map_congr_left fun row member => ?_).trans (List.map_id rows)
  have free : ∀ cell ∈ row.map String.toList, '\t' ∉ cell := by
    simp only [List.forall_mem_map]
    exact fun cell own => (fit row member cell own).1
  rw [Function.comp_apply, toList_tableLine,
    List.splitOn_intercalate '\t' free (by simpa using some row member), List.map_map]
  simp

def tableJson (headers : List String) (rows : List (List String)) : Json :=
  .list (rows.map fun row => .object (headers.zip (row.map .text)))

section json
variable (distinct : headers.Nodup) (full : ∀ row ∈ rows, row.length = headers.length)

theorem exists_text_of_mem_zip {headers row : List String} {cell : String × Json}
    (member : cell ∈ headers.zip (row.map Json.text)) : ∃ text, cell.2 = Json.text text := by
  obtain ⟨text, -, same⟩ := List.mem_map.mp (List.of_mem_zip member).2
  exact ⟨text, same.symm⟩

theorem isPrintable_tableJson (headers : List String) (rows : List (List String)) :
    (tableJson headers rows).isPrintable = true := by
  refine Json.isPrintable_list.mpr ?_
  rw [List.forall_mem_map]
  intro row member
  refine Json.isPrintable_object.mpr fun cell own => ?_
  obtain ⟨text, same⟩ := exists_text_of_mem_zip own
  rw [same]
  rfl

include full

theorem keys_zip (member : row ∈ rows) : Entries.keys (headers.zip (row.map Json.text)) = headers :=
  List.map_fst_zip (by rw [List.length_map, full row member])

include distinct

theorem map_record : Json.list (rows.map (record headers)) = tableJson headers rows := by
  refine congrArg Json.list (List.map_congr_left fun row member => ?_)
  rw [record, Entries.ofPairs_of_distinct (by rw [keys_zip full member]; exact distinct)]

theorem proper_tableJson : (tableJson headers rows).Proper (fun _ => True) := by
  refine .list ?_
  rw [List.forall_mem_map]
  intro row member
  refine .object (by rw [keys_zip full member]; exact distinct) fun cell own => ?_
  obtain ⟨text, same⟩ := exists_text_of_mem_zip own
  exact same ▸ .text text

theorem parse_printTable {output : Output} (json : output.format = .json) :
    Json.parse (output.printTable headers rows).data = .ok (tableJson headers rows) := by
  have text : (output.printTable headers rows).data =
      (tableJson headers rows).render layout ++ "\n" := by
    rw [printTable, json, ← map_record distinct full]
    rfl
  have blank : ∀ c ∈ "\n".toList, Json.isSpace c = true := by simp [Json.isSpace]
  rw [text]
  exact Json.parse_render rfl (proper_tableJson distinct full) (isPrintable_tableJson headers rows)
    blank

end json

end Output

namespace Program
variable {program : Program}

def inOrder (program : Program) : Entries String Tool :=
  (Artifact.order program).filterMap (fun id => (program.tool? id).map (Prod.mk id))

theorem mem_inOrder {id : String} {tool : Tool} :
    (id, tool) ∈ program.inOrder ↔ id ∈ Artifact.order program ∧ program.tool? id = some tool := by
  simp only [inOrder, List.mem_filterMap, Option.map_eq_some_iff, Prod.mk.injEq]
  constructor
  · rintro ⟨_, member, _, found, rfl, rfl⟩
    exact ⟨member, found⟩
  · rintro ⟨member, found⟩
    exact ⟨id, member, tool, found, rfl, rfl⟩

theorem keys_inOrder (closed : program.Closed) : program.inOrder.keys = Artifact.order program := by
  rw [inOrder, Entries.keys, List.map_filterMap]
  refine (List.filterMap_congr fun id member => ?_).trans List.filterMap_some
  obtain ⟨tool, found⟩ := tool?_of_mem_order closed member
  simp [found]

theorem inOrder_perm (closed : program.Closed) (distinct : program.Distinct) :
    program.inOrder.Perm program.tools := by
  have listed : program.inOrder.keys.Nodup := keys_inOrder closed ▸ nodup_order distinct
  refine (List.perm_ext_iff_of_nodup listed.of_map distinct.ids.of_map).mpr ?_
  rintro ⟨id, tool⟩
  rw [mem_inOrder, mem_order closed]
  constructor
  · exact fun ⟨_, found⟩ => Entries.mem_of_get? found
  · intro member
    exact ⟨List.mem_map_of_mem member, Entries.get?_of_mem distinct.ids member⟩

theorem inOrder_eq_cons (closed : program.Closed) (distinct : program.Distinct) :
    ∃ entry others, program.inOrder = (program.entry, entry) :: others ∧
      (Entries.keys others).Pairwise (· < ·) := by
  have keys := keys_inOrder closed
  cases listed : program.inOrder with
  | nil => simp [listed, Entries.keys, Artifact.order] at keys
  | cons first others =>
    rw [listed, Entries.keys, List.map_cons, Artifact.order, List.cons.injEq] at keys
    obtain ⟨id, tool⟩ := first
    obtain ⟨rfl, rest⟩ := keys
    refine ⟨tool, others, rfl, ?_⟩
    rw [Entries.keys, rest]
    exact pairwise_sortIds (distinct.ids.filter _)

end Program

namespace Command
open Output

theorem toolRows_eq (program : Program) :
    toolRows program = program.inOrder.map (fun entry => toolRow entry.1 entry.2) := by
  simp [toolRows, Program.inOrder, List.map_filterMap, Function.comp_def]

/-- The text that a cell stands for; a hyphen stands for none. -/
def ofCell (cell : String) : String := if cell = "-" then "" else cell

theorem ofCell_orHyphen_iff {text : String} : ofCell (orHyphen text) = text ↔ text ≠ "-" := by
  unfold ofCell orHyphen
  by_cases empty : text = ""
  · subst empty
    decide
  · by_cases same : text = "-"
    · subst same
      decide
    · simp [empty, same]

theorem fits_orHyphen_iff {text : String} : Fits (orHyphen text) ↔ Fits text := by
  unfold orHyphen
  by_cases empty : text = ""
  · subst empty
    decide
  · simp [empty]

theorem forall_mem_join_iff {holds : Char → Prop} {separator : String}
    (between : ∀ c ∈ separator.toList, holds c) {texts : List String} :
    (∀ c ∈ (String.intercalate separator texts).toList, holds c) ↔
      ∀ text ∈ texts, ∀ c ∈ text.toList, holds c := by
  rw [String.toList_intercalate]
  induction texts with
  | nil => simp
  | cons text texts ih =>
    cases texts with
    | nil => simp
    | cons next texts =>
      rw [List.map_cons, List.intercalate_cons_of_ne_nil (by simp), List.forall_mem_append,
        List.forall_mem_append, ih, List.forall_mem_cons (a := text), and_iff_left between]

theorem not_mem_join_iff {c : Char} (comma : c ≠ ',') (blank : c ≠ ' ') {texts : List String} :
    c ∉ (String.intercalate ", " texts).toList ↔ ∀ text ∈ texts, c ∉ text.toList := by
  have between : ∀ d ∈ ", ".toList, d ≠ c := by simp [comma.symm, blank.symm]
  have joined : (∀ d ∈ (String.intercalate ", " texts).toList, d ≠ c) ↔
      ∀ text ∈ texts, ∀ d ∈ text.toList, d ≠ c := forall_mem_join_iff between
  simpa only [List.forall_mem_ne'] using joined

theorem fits_join_iff {texts : List String} :
    Fits (String.intercalate ", " texts) ↔ ∀ text ∈ texts, Fits text := by
  simp only [Fits, not_mem_join_iff (c := '\t') (by decide) (by decide),
    not_mem_join_iff (c := '\n') (by decide) (by decide), forall_and]

def FitsLine (id : String) (tool : Tool) : Prop :=
  Fits id ∧ Fits tool.name ∧ Fits tool.description ∧ ∀ reference ∈ tool.tools, Fits reference

theorem fits_toolRow_iff {id : String} {tool : Tool} :
    (∀ cell ∈ toolRow id tool, Fits cell) ↔ FitsLine id tool := by
  simp only [toolRow, List.forall_mem_cons, fits_orHyphen_iff, fits_join_iff, FitsLine,
    List.not_mem_nil, false_imp_iff, implies_true, and_true]

/-- The id, the name and the description of each tool in a table. -/
def readTools (text : String) : List (String × String × String) :=
  (readTable text).tail.map (fun row =>
    (row.getD 0 "", ofCell (row.getD 1 ""), ofCell (row.getD 2 "")))

theorem length_toolRow (program : Program) :
    ∀ row ∈ toolHeaders :: toolRows program, row.length = 3 + 1 := by
  rw [toolRows_eq, List.forall_mem_cons, List.forall_mem_map]
  exact ⟨rfl, fun _ _ => rfl⟩

section plain
variable {program : Program} (perm : program.inOrder.Perm program.tools)
include perm

theorem fits_toolRows_iff :
    (∀ row ∈ toolHeaders :: toolRows program, ∀ cell ∈ row, Fits cell) ↔
      ∀ id tool, (id, tool) ∈ program.tools → FitsLine id tool := by
  have headers : ∀ cell ∈ toolHeaders, Fits cell := by decide
  rw [List.forall_mem_cons, and_iff_right headers, toolRows_eq, List.forall_mem_map]
  simp only [fits_toolRow_iff, perm.mem_iff, Prod.forall]

theorem isTable_toolRows_iff :
    IsTable 4 (program.tools.length + 1) (tableText (toolHeaders :: toolRows program)) ↔
      ∀ id tool, (id, tool) ∈ program.tools → FitsLine id tool := by
  have height : (toolHeaders :: toolRows program).length = program.tools.length + 1 := by
    rw [toolRows_eq, List.length_cons, List.length_map, perm.length_eq]
  rw [← fits_toolRows_iff perm, ← height]
  exact isTable_tableText_iff (length_toolRow program)

theorem readTable_toolRows (fit : ∀ id tool, (id, tool) ∈ program.tools → FitsLine id tool) :
    readTable (tableText (toolHeaders :: toolRows program)) = toolHeaders :: toolRows program := by
  refine readTable_tableText (fun row member => ?_) ((fits_toolRows_iff perm).mpr fit)
  exact List.ne_nil_of_length_eq_add_one (length_toolRow program row member)

theorem readTools_iff {text : String} (back : readTable text = toolHeaders :: toolRows program) :
    readTools text = program.inOrder.map (fun (id, tool) => (id, tool.name, tool.description)) ↔
      ∀ id tool, (id, tool) ∈ program.tools → tool.name ≠ "-" ∧ tool.description ≠ "-" := by
  rw [readTools, back, List.tail_cons, toolRows_eq, List.map_map, List.map_inj_left]
  simp [perm.mem_iff, toolRow, ofCell_orHyphen_iff]

end plain

theorem conclude_inspect {request : CommandRequest} {subject : Subject}
    (asks : request.command = .inspect subject) (program : Program) :
    ∃ messages, request.conclude subject (.ok program) =
      .printing ⟨(request.output.printTable toolHeaders (toolRows program)).writes, messages⟩ := by
  let table := request.output.printTable toolHeaders (toolRows program)
  let before := request.output.debug s!"Loading {subject.reference}"
  have quiet : before.writes = [] := by
    simp only [before, Output.debug]
    split <;> rfl
  have made : request.conclude subject (.ok program) = .printing (before ++ table) := by
    rw [CommandRequest.conclude, asks]
    rfl
  have writes : (before ++ table).writes = table.writes := by
    show before.writes ++ table.writes = table.writes
    rw [quiet, List.nil_append]
  exact ⟨(before ++ table).messages, made.trans (by rw [← writes])⟩

/-! ### What gets through -/

def HasEncoding (circumstances : Circumstances) (id : String) (tool : Tool) : Prop :=
  ∀ text ∈ id :: tool.name :: tool.description :: tool.tools, circumstances.takes text = true

structure Encodes (circumstances : Circumstances) (encodes : Char → Bool) : Prop where
  takes : ∀ text, circumstances.takes text = text.toList.all encodes
  ascii : ∀ c : Char, c.toNat < 128 → encodes c = true

section encoding
variable {circumstances : Circumstances} {encodes : Char → Bool}
  (encoding : Encodes circumstances encodes)
include encoding

theorem takes_iff {text : String} :
    circumstances.takes text = true ↔ ∀ c ∈ text.toList, encodes c = true := by
  rw [encoding.takes, List.all_eq_true]

theorem takes_tableLine_iff {row : List String} :
    circumstances.takes (tableLine row ++ "\n") = true ↔
      ∀ cell ∈ row, circumstances.takes cell = true := by
  have tab : ∀ c ∈ "\t".toList, encodes c = true := by simpa using encoding.ascii '\t' (by decide)
  have newline : ∀ c ∈ "\n".toList, encodes c = true := by
    simpa using encoding.ascii '\n' (by decide)
  simp only [takes_iff encoding, String.toList_append, List.forall_mem_append, tableLine]
  rw [forall_mem_join_iff tab, and_iff_left newline]

theorem takes_orHyphen_iff {text : String} :
    circumstances.takes (orHyphen text) = true ↔ circumstances.takes text = true := by
  unfold orHyphen
  by_cases empty : text = ""
  · subst empty
    have hyphen := encoding.ascii '-' (by decide)
    simp [takes_iff encoding, hyphen]
  · simp [empty]

theorem takes_toolRow_iff {id : String} {tool : Tool} :
    (∀ cell ∈ toolRow id tool, circumstances.takes cell = true) ↔
      HasEncoding circumstances id tool := by
  have between : ∀ c ∈ ", ".toList, encodes c = true := by
    simpa using ⟨encoding.ascii ',' (by decide), encoding.ascii ' ' (by decide)⟩
  have references : circumstances.takes (String.intercalate ", " tool.tools) = true ↔
      ∀ reference ∈ tool.tools, circumstances.takes reference = true := by
    simp only [takes_iff encoding]
    exact forall_mem_join_iff between
  simp only [toolRow, HasEncoding, List.forall_mem_cons, takes_orHyphen_iff encoding, references,
    List.not_mem_nil, false_imp_iff, implies_true, and_true]

theorem takes_toolRows_iff {program : Program} (perm : program.inOrder.Perm program.tools) :
    (((toolHeaders :: toolRows program).map (fun row => tableLine row ++ "\n")).all
        circumstances.takes = true) ↔
      ∀ id tool, (id, tool) ∈ program.tools → HasEncoding circumstances id tool := by
  have headers : ∀ cell ∈ toolHeaders, circumstances.takes cell = true := by
    have plain : (toolHeaders.all fun cell => cell.toList.all fun c => c.toNat < 128) = true := by
      decide +kernel
    simp only [List.all_eq_true, decide_eq_true_eq] at plain
    exact fun cell member =>
      (takes_iff encoding).mpr fun c own => encoding.ascii c (plain cell member c own)
  rw [List.all_eq_true, List.forall_mem_map]
  simp only [takes_tableLine_iff encoding]
  rw [List.forall_mem_cons, and_iff_right headers, toolRows_eq, List.forall_mem_map]
  simp only [takes_toolRow_iff encoding, perm.mem_iff, Prod.forall]

end encoding

/-- A program that is loaded, as a table of its tools: the entry tool first and the others by id. The
plain table has a line of four fields for the headers and for each tool exactly if no text in it holds a
tab or a newline. Then the rows can be read from it, and the tools up to a name or a description that is
a hyphen. From a table as JSON the rows can always be read. A plain table is printed exactly if its texts
have an encoding, and otherwise up to the first row that has none. -/
theorem tools_in_table {request : LoadRequest} {world : World} {program : Program}
    (returns : Load.Returns request world program) {asking : CommandRequest} {subject : Subject}
    (asks : asking.command = .inspect subject) {circumstances : Circumstances}
    {encodes : Char → Bool} (encoding : Encodes circumstances encodes) (host : Host)
    (load : Settings → LoadRequest → Except Error Program) (tree : FileTree) :
    let surroundings := Surroundings.ofTree host circumstances load
    let result := asking.conclude subject (.ok program)
    let ending := (result.complete surroundings tree).1
    let writes := result.printed.writes
    let text := result.printed.data
    (writes.all surroundings.takes = true → ending.exit = 0 ∧ ending.printed.data = text) ∧
    (writes.all surroundings.takes = false →
      ending.exit = 1 ∧ ending.printed.writes = writes.takeWhile surroundings.takes) ∧
    ∃ listed : Entries String Tool, listed.Perm program.tools ∧
      (∃ entry others, listed = (program.entry, entry) :: others ∧
        (Entries.keys others).Pairwise (· < ·)) ∧
      let rows := listed.map (fun (id, tool) =>
        [id, orHyphen tool.name, orHyphen tool.description, String.intercalate ", " tool.tools])
      (asking.output.format = .plain →
        writes = (toolHeaders :: rows).map (fun row => tableLine row ++ "\n") ∧
        (writes.all surroundings.takes = true ↔
          ∀ id tool, (id, tool) ∈ program.tools → HasEncoding circumstances id tool) ∧
        (IsTable 4 (program.tools.length + 1) text ↔
          ∀ id tool, (id, tool) ∈ program.tools → FitsLine id tool) ∧
        (IsTable 4 (program.tools.length + 1) text → readTable text = toolHeaders :: rows ∧
          (readTools text = listed.map (fun (id, tool) => (id, tool.name, tool.description)) ↔
            ∀ id tool, (id, tool) ∈ program.tools → tool.name ≠ "-" ∧ tool.description ≠ "-"))) ∧
      (asking.output.format = .json →
        writes = [text] ∧ Json.parse text = .ok (tableJson toolHeaders rows)) := by
  intro surroundings result ending writes text
  obtain ⟨messages, printed⟩ := conclude_inspect asks program
  have ends : result = .printing ⟨_, messages⟩ := printed
  have perm := Program.inOrder_perm returns.closed returns.distinct
  have written : writes = (asking.output.printTable toolHeaders (toolRows program)).writes :=
    congrArg (·.printed.writes) ends
  have data : text = (asking.output.printTable toolHeaders (toolRows program)).data :=
    congrArg String.join written
  have completed : result.complete surroundings tree =
      if writes.all surroundings.takes then (⟨0, result.printed⟩, tree)
      else CommandRequest.crashed host circumstances (result.printed.upTo surroundings.takes) tree := by
    rw [show result = .printing result.printed by rw [ends]; rfl]
    exact CommandRequest.complete_printing _
  refine ⟨fun taken => ?_, fun held => ?_, program.inOrder, perm,
    Program.inOrder_eq_cons returns.closed returns.distinct, ?_, ?_⟩
  · rw [if_pos taken] at completed
    exact ⟨congrArg (·.1.exit) completed, congrArg (·.1.printed.data) completed⟩
  · rw [if_neg (ne_true_of_eq_false held)] at completed
    exact ⟨congrArg (·.1.exit) completed,
      (congrArg (·.1.printed.writes) completed).trans (CommandRequest.writes_crashed ..)⟩
  · intro plain
    have lines : writes = (toolHeaders :: toolRows program).map (fun row => tableLine row ++ "\n") := by
      rw [written, printTable, plain]
    have spelled : text = tableText (toolHeaders :: toolRows program) := congrArg String.join lines
    have table := isTable_toolRows_iff perm
    rw [spelled]
    refine ⟨lines.trans (by rw [toolRows_eq]; rfl), ?_, table, fun reads => ?_⟩
    · rw [lines]
      exact takes_toolRows_iff encoding perm
    · have back := readTable_toolRows perm (table.mp reads)
      exact ⟨back.trans (congrArg _ (toolRows_eq program)), readTools_iff perm back⟩
  · intro json
    have full : ∀ row ∈ toolRows program, row.length = toolHeaders.length :=
      (List.forall_mem_cons.mp (length_toolRow program)).2
    refine ⟨?_, ?_⟩
    · rw [data, written, printTable, json]
      simp [printJson, Printed.dataLine, Printed.data]
    · rw [data, parse_printTable (by decide) full json, toolRows_eq]
      rfl

theorem encodes_calm : Encodes .calm (!Text.isSurrogate ·) where
  takes _ := rfl
  ascii c small := by
    have apart : Text.isSurrogate c = false := decide_eq_false (by unfold Text.firstSurrogate; omega)
    rw [apart, Bool.not_false]

/-- A file that refers to another one, and one with a tab in its description. -/
def shelf : World :=
  .ofFiles "/work" [("/work/a.gpt", "name: first\ntools: b.gpt\n\nGo on."),
    ("/work/b.gpt", "description: to be gone on with\n\nStop."),
    ("/work/c.gpt", "description: one\ttwo\n\nStop.")]

def inspecting (file : String) : CommandRequest :=
  ⟨.inspect ⟨file, ""⟩, ⟨.plain, false, false⟩, none, none⟩

def lineTexts (program : Program) : List (String × String × String × List String) :=
  program.tools.map (fun (id, tool) => (id, tool.name, tool.description, tool.tools))

theorem fitsLines_iff {program : Program} :
    (∀ id tool, (id, tool) ∈ program.tools → FitsLine id tool) ↔
      ∀ texts ∈ lineTexts program, Fits texts.1 ∧ Fits texts.2.1 ∧ Fits texts.2.2.1 ∧
        ∀ reference ∈ texts.2.2.2, Fits reference := by
  rw [lineTexts, List.forall_mem_map, Prod.forall]
  rfl

set_option maxRecDepth 10000 in
/-- A tab in a description is one field too many. -/
theorem shelf_in_tables :
    (∃ program, Load.Returns (.of "a.gpt") shelf program ∧
      IsTable 4 3 ((inspecting "a.gpt").conclude ⟨"a.gpt", ""⟩ (.ok program)).printed.data) ∧
    ∃ program, Load.Returns (.of "c.gpt") shelf program ∧
      ¬ IsTable 4 2 ((inspecting "c.gpt").conclude ⟨"c.gpt", ""⟩ (.ok program)).printed.data := by
  have shown : ∀ {file texts}, (Load.run (.of file) shelf).result.toOption.map lineTexts = some texts →
      ∃ program, Load.Returns (.of file) shelf program ∧ lineTexts program = texts := by
    intro file texts known
    cases loaded : (Load.run (.of file) shelf).result with
    | error error => simp [loaded, Except.toOption] at known
    | ok program => exact ⟨program, .inl loaded, by simpa [loaded, Except.toOption] using known⟩
  obtain ⟨first, returns, texts⟩ := @shown "a.gpt" [("/work/a.gpt:1", "first", "", ["b.gpt"]),
    ("/work/b.gpt:1", "", "to be gone on with", [])] (by decide +kernel)
  obtain ⟨second, returns', texts'⟩ := @shown "c.gpt" [("/work/c.gpt:1", "", "one\ttwo", [])]
    (by decide +kernel)
  refine ⟨⟨first, returns, ?_⟩, second, returns', ?_⟩
  · obtain ⟨-, -, listed, -, -, plain, -⟩ := tools_in_table returns
      (show (inspecting "a.gpt").command = .inspect ⟨"a.gpt", ""⟩ from rfl) encodes_calm
      CommandRequest.bench (Surroundings.loadFrom CommandRequest.bench shelf) .empty
    have count : first.tools.length = 2 := by simpa [lineTexts] using congrArg List.length texts
    have table := (plain rfl).2.2.1
    rw [fitsLines_iff, texts, count] at table
    exact table.mpr (by decide)
  · obtain ⟨-, -, listed, -, -, plain, -⟩ := tools_in_table returns'
      (show (inspecting "c.gpt").command = .inspect ⟨"c.gpt", ""⟩ from rfl) encodes_calm
      CommandRequest.bench (Surroundings.loadFrom CommandRequest.bench shelf) .empty
    have count : second.tools.length = 1 := by simpa [lineTexts] using congrArg List.length texts'
    have table := (plain rfl).2.2.1
    rw [fitsLines_iff, texts', count] at table
    exact fun reads => absurd (table.mp reads) (by decide)

end Command
end ToolGraph
