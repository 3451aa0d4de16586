import ToolGraph.Load.Destination
import ToolGraph.Program.Basic
import ToolGraph.Proofs.Below
import ToolGraph.Proofs.Source

/-!
Native sources below a directory. Where a source lies shows in the ids of its tools, in their origins
and in the directory that they work in, and nowhere else; so do the places that references lead to
which stay below the directory.
-/
namespace ToolGraph
open Entries

/-- A tool with the texts replaced that tell a place: those that start with a location, and the
directory that it works in. -/
def Tool.relabel (label directory : String → String) (tool : Tool) : Tool :=
  { tool with
    id := label tool.id
    toolMapping := tool.toolMapping.mapValues label
    localTools := tool.localTools.mapValues label
    origin := { tool.origin with location := label tool.origin.location }
    workingDir := directory tool.workingDir }

def Tool.rebase (dir dir' : List Char) : Tool → Tool :=
  Tool.relabel (Path.rebase dir dir') (Path.rebaseDirectory dir dir')

/-- A program with one directory in the place of another. -/
def Program.rebase (dir dir' : List Char) (program : Program) : Program :=
  { name := Path.rebase dir dir' program.name
    entry := Path.rebase dir dir' program.entry
    tools := program.tools.map (fun entry =>
      (Path.rebase dir dir' entry.1, entry.2.rebase dir dir')) }

/-! ### Native tools -/

namespace Block

theorem idAt_eq (location : String) (line : Int) : idAt location line = location ++ idAt "" line := by
  apply String.toList_injective
  simp [toList_idAt]

theorem toOption_readLines (location : String) (line : Int) (block : Block) (inHeader : Bool)
    (texts : List (List Char)) :
    (readLines location line block inHeader texts).toOption =
      (readLines "" line block inHeader texts).toOption := by
  induction texts generalizing line block inHeader with
  | nil => rfl
  | cons text rest ih =>
    unfold readLines
    split
    next =>
      rw [toOption_map, toOption_map, ih]
    next =>
      split
      next => exact ih _ _ _
      next =>
        split
        next entry read =>
          split
          next => exact ih _ _ _
          next => rfl
        next => exact ih _ _ _

theorem toOption_localNames (location : String) (names : Entries String String)
    (blocks : List Block) :
    (localNames location (names.mapValues (location ++ ·)) blocks).toOption =
      (localNames "" names blocks).toOption.map (mapValues (location ++ ·)) := by
  induction blocks generalizing names with
  | nil => rfl
  | cons block blocks ih =>
    simp only [localNames, has_mapValues]
    split
    next => exact ih names
    next =>
      split
      next => rfl
      next =>
        rw [idAt_eq location, ← mapValues_put (location ++ ·)]
        exact ih _

theorem tool_eq (location workingDir model : String) (localTools : Entries String String)
    (block : Block) :
    tool location workingDir model (localTools.mapValues (location ++ ·)) block =
      (tool "" "" model localTools block).relabel (location ++ ·) (fun _ => workingDir) := by
  simp only [tool, Tool.relabel, idAt_eq location, String.append_empty]
  rfl

theorem toOption_parse (content location workingDir model : String) (firstLine : Int) :
    (parse content location workingDir model firstLine).toOption =
      (parse content "" "" model firstLine).toOption.map
        (List.map (Tool.relabel (location ++ ·) (fun _ => workingDir))) := by
  have blocks : (readAll content location firstLine).toOption =
      (readAll content "" firstLine).toOption := by
    rw [readAll, readAll, toOption_map, toOption_map, toOption_readLines]
  unfold parse
  rw [toOption_bind, toOption_bind, blocks, Option.map_bind]
  congr 1
  funext found
  cases found with
  | nil => rfl
  | cons first rest =>
    have names := toOption_localNames location [] (first :: rest)
    simp only [List.head?_cons, Function.comp_apply, toOption_bind]
    rw [show mapValues (location ++ ·) ([] : Entries String String) = [] from rfl] at names
    rw [names, Option.bind_map, Option.map_bind]
    congr 1
    funext table
    simp only [Function.comp_apply, pure, Except.pure, Except.toOption, Option.map_some, List.map_map]
    rw [idAt_eq location, ← mapValues_put (location ++ ·)]
    exact congrArg some (List.map_congr_left fun block _ => tool_eq location workingDir model _ block)

theorem parse_eq_ok_iff {content location workingDir model : String} {firstLine : Int}
    {tools : List Tool} :
    parse content location workingDir model firstLine = .ok tools ↔
      ∃ plain, parse content "" "" model firstLine = .ok plain ∧
        plain.map (Tool.relabel (location ++ ·) (fun _ => workingDir)) = tools := by
  rw [← toOption_eq_some, toOption_parse, Option.map_eq_some_iff]
  simp only [toOption_eq_some]

end Block

open ToolGraph.Path
variable {dir : List Char} {names : List (List Char)}

/-- The tool of a file below a directory, made of one that has no place yet. -/
def Tool.placed (dir : List Char) (names : List (List Char)) (tool : Tool) : Tool :=
  tool.relabel (String.ofList (under dir names) ++ ·)
    (fun _ => String.ofList (under dir names.dropLast))

/-- A tool of a file takes the place of the same file below another directory. -/
theorem Tool.rebase_placed {dir' : List Char} (normal : IsNormal dir) (normal' : IsNormal dir')
    (each : AreNames names) (some : names ≠ []) (tool : Tool) :
    (tool.placed dir names).rebase dir dir' = tool.placed dir' names := by
  have inner : AreNames names.dropLast :=
    fun name member => each name (List.mem_of_mem_dropLast member)
  have label : Path.rebase dir dir' ∘ (String.ofList (under dir names) ++ ·) =
      (String.ofList (under dir' names) ++ ·) :=
    funext fun rest => rebase_under normal normal' each some rest
  simp only [Tool.rebase, Tool.placed, Tool.relabel, mapValues_mapValues, label,
    rebase_under normal normal' each some, rebaseDirectory_under normal normal' inner]

namespace Source

/-- The source that a file below a directory holds, made of one that has no place yet. -/
def placed (dir : List Char) (names : List (List Char)) (plain : Source) : Source :=
  { location := under dir names
    first := plain.first.placed dir names
    others := plain.others.map (Tool.placed dir names)
    linked := plain.linked }

theorem mem_tools_placed {plain : Source} {tool : Tool} :
    tool ∈ (plain.placed dir names).tools ↔ ∃ own ∈ plain.tools, own.placed dir names = tool := by
  change tool ∈ plain.tools.map (Tool.placed dir names) ↔ _
  exact List.mem_map

/-- Native content holds a source, wherever it lies. -/
structure Holds (model : String) (content : Bytes) (plain : Source) : Prop where
  native : ∃ text, IsNative content text ∧
    Block.parse (String.ofList text) "" "" model 1 = .ok plain.tools
  nowhere : plain.location = []
  live : plain.linked = false

theorem Holds.unique {model : String} {content : Bytes} {plain other : Source}
    (holds : Holds model content plain) (holds' : Holds model content other) : plain = other := by
  obtain ⟨⟨text, native, parsed⟩, nowhere, live⟩ := holds
  obtain ⟨⟨text', native', parsed'⟩, nowhere', live'⟩ := holds'
  obtain rfl := Option.some.inj (native.text.symm.trans native'.text)
  have tools := List.cons.inj (Except.ok.inj (parsed.symm.trans parsed'))
  cases plain
  cases other
  simp_all

theorem Holds.toolMapping {model : String} {content : Bytes} {plain : Source}
    (holds : Holds model content plain) {tool : Tool} (member : tool ∈ plain.tools) :
    tool.toolMapping = [] := by
  obtain ⟨text, -, parsed⟩ := holds.native
  obtain ⟨first, blocks, localTools, -, -, -, -, same⟩ := Block.parse_eq_ok parsed
  rw [same] at member
  obtain ⟨block, -, rfl⟩ := List.mem_map.mp member
  rfl

theorem read_under (normal : IsNormal dir) (each : AreNames names) (some : names ≠ [])
    {base : List Char} {model : String} {content : Bytes} {text : List Char}
    (native : IsNative content text) {source : Source} :
    read base model ⟨under dir names, content⟩ = .ok source ↔
      ∃ plain, Holds model content plain ∧ source = plain.placed dir names := by
  rcases List.eq_nil_or_concat names with none | ⟨before, name, rfl⟩
  · exact absurd none some
  rw [List.concat_eq_append] at each ⊢
  have named : IsName name := each name (by simp)
  have inner : AreNames before := (List.forall_mem_append.mp each).1
  have normal' := isNormal_under normal each
  have directory : Location.workingDir (under dir (before ++ [name])) base =
      .ok (under dir before) := by
    rw [Location.workingDir, (Canonical.not_web_of_isAbsolute normal'.isAbsolute).1,
      normal'.isAbsolute, parent_under normal inner named]
    rfl
  rw [read_of_isNative native directory, bind_eq_ok]
  have place : Tool.placed dir (before ++ [name]) = Tool.relabel
      (String.ofList (under dir (before ++ [name])) ++ ·)
      (fun _ => String.ofList (under dir before)) := by
    funext tool
    rw [Tool.placed, List.dropLast_concat]
  constructor
  · rintro ⟨tools, parsed, made⟩
    obtain ⟨plain, anywhere, rfl⟩ := Block.parse_eq_ok_iff.mp parsed
    rw [← place] at made
    cases plain with
    | nil => simp [ofTools] at made
    | cons first others =>
      exact ⟨⟨[], first, others, false⟩, ⟨⟨text, native, anywhere⟩, rfl, rfl⟩, (Except.ok.inj made).symm⟩
  · rintro ⟨plain, ⟨⟨text', native', parsed⟩, -, live⟩, rfl⟩
    obtain rfl := Option.some.inj (native.text.symm.trans native'.text)
    refine ⟨_, Block.parse_eq_ok_iff.mpr ⟨plain.tools, parsed, rfl⟩, ?_⟩
    simp only [← place, tools, List.map_cons, ofTools, Source.placed, live]

theorem select_placed (plain : Source) (name : String) :
    ((plain.placed dir names).select name).toOption =
      (plain.select name).toOption.map (String.ofList (under dir names) ++ ·) := by
  simp only [select, placed]
  split
  next => rfl
  next =>
    simp only [Tool.placed, Tool.relabel, get?_mapValues]
    cases plain.first.localTools.get? (Text.lower name) <;> rfl

theorem select_rebase {dir' : List Char} (normal : IsNormal dir) (normal' : IsNormal dir')
    (each : AreNames names) (some : names ≠ []) {plain : Source} {name target : String}
    (selected : (plain.placed dir names).select name = .ok target) :
    (plain.placed dir' names).select name = .ok (Path.rebase dir dir' target) := by
  have selected := toOption_eq_some.mpr selected
  rw [select_placed, Option.map_eq_some_iff] at selected
  obtain ⟨id, known, rfl⟩ := selected
  rw [← toOption_eq_some, select_placed, known, rebase_under normal normal' each some]
  rfl

end Source

/-! ### References -/

namespace Tool

/-- A reference of a tool that stays below the directory: it names a tool of the same source or a
built-in tool, or it is a relative path that never leads above the directory. -/
def Keeps (tool : Tool) (directory : List (List Char)) (written : String) : Prop :=
  let reference := Reference.read written
  (Destination.sibling? tool written reference).isSome ∨
    (reference.subTool.isEmpty ∧ Builtin.isReference reference.source) ∨
    (Location.isAbsolute reference.source.toList = false ∧
      reference.source.toList.head? ≠ some '~' ∧
      (descend? directory reference.source.toList).isSome)

instance (tool : Tool) (directory : List (List Char)) (written : String) :
    Decidable (tool.Keeps directory written) := by
  unfold Keeps
  infer_instance

end Tool

/-- Where a reference that stays below a directory leads, seen without the directory. -/
inductive Lead where
  | sibling (id : String)
  | builtin (target : Tool)
  | file (names : List (List Char)) (subTool : String)

namespace Lead

/-- The destination of a reference of a tool in the file of `names`. -/
def place (tree : FileTree) (dir : List Char) (names : List (List Char)) : Lead → Destination
  | .sibling id => .sibling (String.ofList (under dir names) ++ id)
  | .builtin target => .builtin target
  | .file target subTool => .source (under dir (tree.enter dir target)) subTool

def find? (tool : Tool) (directory : List (List Char)) (written : String) : Option Lead :=
  let reference := Reference.read written
  if reference.source.isEmpty then none
  else
    match Destination.sibling? tool written reference with
    | some id => some (.sibling id)
    | none =>
      if reference.subTool.isEmpty && Builtin.isReference reference.source then
        (Builtin.find? reference.source).map .builtin
      else
        (descend? directory reference.source.toList).map (.file · reference.subTool)

theorem builtin_of_find {tool target : Tool} {directory : List (List Char)} {written : String}
    (found : find? tool directory written = some (.builtin target)) :
    ∃ name, Builtin.find? name = some target := by
  unfold find? at found
  simp only at found
  split at found
  next => cases found
  next =>
    split at found
    next => cases found
    next =>
      split at found
      next =>
        obtain ⟨other, known, same⟩ := Option.map_eq_some_iff.mp found
        exact ⟨_, Lead.builtin.inj same ▸ known⟩
      next => simp at found

theorem areNames_of_find {tool : Tool} {target : List (List Char)} {written subTool : String}
    (each : AreNames names) (found : find? tool names.dropLast written = some (.file target subTool)) :
    AreNames target := by
  have inner : AreNames names.dropLast :=
    fun name member => each name (List.mem_of_mem_dropLast member)
  unfold find? at found
  simp only at found
  split at found
  next => cases found
  next =>
    split at found
    next => cases found
    next =>
      split at found
      next => simp at found
      next =>
        obtain ⟨other, inside, same⟩ := Option.map_eq_some_iff.mp found
        obtain ⟨rfl, -⟩ := Lead.file.inj same
        exact areNames_of_descend inner inside

end Lead

namespace Destination

theorem sibling?_placed (tool : Tool) (written : String) (reference : Reference) :
    sibling? (tool.placed dir names) written reference =
      (sibling? tool written reference).map (String.ofList (under dir names) ++ ·) := by
  simp only [sibling?, Tool.placed, Tool.relabel, get?_mapValues]
  cases tool.localTools.get? (Text.lower written) with
  | some id => rfl
  | none =>
    simp only [Option.map_none]
    split <;> rfl

end Destination

namespace World
variable {world : World}

/-- What references are seen against in a world. -/
abbrev outlook (world : World) : Outlook := ⟨world.canonical, world.home⟩

theorem canonical_of_normalise {location : List Char} (absolute : Path.isAbsolute location = true)
    (same : normalise location = under dir names) :
    world.canonical location = .ok (under dir (world.files.enter dir names)) := by
  rw [canonical, Canonical.location_of_isAbsolute absolute, Canonical.ofPath_of_isAbsolute absolute,
    same, FileTree.enter]
  change Except.ok (if world.files.isDirectoryAt (under dir names) then _ else _) = _
  split
  next => rw [under_concat]
  next => rfl

theorem canonical_under (normal : IsNormal dir) (each : AreNames names) :
    world.canonical (under dir names) = .ok (under dir (world.files.enter dir names)) := by
  have normal' := isNormal_under normal each
  exact canonical_of_normalise normal'.isAbsolute (normalise_of_isNormal normal')

theorem locate_under (normal : IsNormal dir) (each : AreNames names) {path : List Char}
    (relative : Location.isAbsolute path = false) (away : path.head? ≠ some '~')
    {target : List (List Char)} (inside : descend? names path = some target) :
    world.outlook.locate path (under dir names) =
      .ok (under dir (world.files.enter dir target)) := by
  have local_ : Path.isAbsolute path = false := by
    simp only [Location.isAbsolute, Bool.or_eq_false_iff] at relative
    exact relative.2
  have own : expandHome world.home path = path := by
    cases path with
    | nil => rfl
    | cons c rest =>
      have other : c ≠ '~' := fun same => away (congrArg some same)
      unfold expandHome
      split
      next same => exact absurd (List.cons.inj same).1 other
      next => rfl
  have noUrl := (Canonical.not_web_of_isAbsolute (isNormal_under normal each).isAbsolute).1
  rw [Outlook.locate, Location.join, relative, noUrl, own]
  simp only [Bool.false_eq_true, if_false, normalise_under normal each local_ inside]
  exact canonical_under normal (areNames_of_descend each inside)

end World

theorem Fetch.location_under {world : World} {files : List (List Char) → Option Bytes}
    (holds : world.files.HoldsBelow dir files) (each : AreNames names) (patience : Patience) :
    (Fetch.location patience (under dir names) world).1.toOption =
      (files (world.files.enter dir names)).map
        (Fetched.mk (under dir (world.files.enter dir names))) := by
  have each' : AreNames (world.files.enter dir names) := FileTree.areNames_enter each
  have noUrl :=
    (Canonical.not_web_of_isAbsolute (isNormal_under holds.normal each').isAbsolute).1
  simp only [Fetch.location, World.canonical_under holds.normal each, noUrl, Bool.false_eq_true,
    if_false]
  cases held : files (world.files.enter dir names) with
  | some content =>
    have read : world.files.readAt (under dir (world.files.enter dir names)) = .ok content := by
      simp only [FileTree.readAt, FileTree.read, holds.content each', held]
    have sound := holds.sound each' (by rw [held]; rfl)
    simp only [file_eq_ok.mpr ⟨sound, read⟩]
    rfl
  | none =>
    have unread : ∀ content, (file (under dir (world.files.enter dir names)) world).1 ≠ .ok content := by
      intro content found
      have read := (file_eq_ok.mp found).2
      simp only [FileTree.readAt, FileTree.read, holds.content each', held] at read
      split at read <;> (try split at read) <;> simp at read
    cases found : (file (under dir (world.files.enter dir names)) world).1 with
    | ok content => exact absurd found (unread content)
    | error error => rfl

theorem Lead.find_placed {world : World} {tool : Tool} {written : String} (normal : IsNormal dir)
    (each : AreNames names) (keeps : tool.Keeps names.dropLast written) :
    (Destination.find world.outlook (tool.placed dir names) written).toOption =
      (find? tool names.dropLast written).map (Lead.place world.files dir names) := by
  simp only [Destination.find, find?, Destination.sibling?_placed]
  split
  next => rfl
  next =>
    cases named : Destination.sibling? tool written (Reference.read written) with
    | some id => rfl
    | none =>
      simp only [Option.map_none]
      split
      next =>
        cases Builtin.find? (Reference.read written).source <;> rfl
      next unmarked =>
        rcases keeps with sibling | builtin | ⟨relative, away, inside⟩
        · simp [named] at sibling
        · exact absurd (by simpa using builtin) unmarked
        · obtain ⟨target, inside⟩ := Option.isSome_iff_exists.mp inside
          have inner : AreNames names.dropLast :=
            fun name member => each name (List.mem_of_mem_dropLast member)
          have located := world.locate_under normal inner relative away inside
          simp only [Tool.placed, Tool.relabel, String.toList_ofList, located, inside]
          rfl

end ToolGraph
