import ToolGraph.Proofs.Entries
import ToolGraph.Proofs.Yaml.Tokens
import ToolGraph.Yaml.Node

/-!
What the tree of a YAML document holds. Its scalars have their texts from the tokens, an alias included,
and nothing but malformed tokens keeps them from being a tree.
-/
namespace ToolGraph.Yaml
namespace Node

/-! ### Parts of a tree -/

/-- The first node stands in the tree of the second. -/
inductive IsPart (part : Node) : (whole : Node) → Prop where
  | all : IsPart part part
  | item {tag : Tag} {items : List Node} {item : Node} (member : item ∈ items) (inside : IsPart part item) :
    IsPart part (.sequence tag items)
  | key {tag : Tag} {entries : List (Node × Node)} {entry : Node × Node} (member : entry ∈ entries)
    (inside : IsPart part entry.1) : IsPart part (.mapping tag entries)
  | value {tag : Tag} {entries : List (Node × Node)} {entry : Node × Node} (member : entry ∈ entries)
    (inside : IsPart part entry.2) : IsPart part (.mapping tag entries)

def Shown (source : List Char) (node : Node) : Prop :=
  ∀ tag text, IsPart (.scalar tag text) node → Text.Shows source text.toList

section shown
variable {source : List Char} {tag : Tag}

theorem shown_scalar {text : String} (shows : Text.Shows source text.toList) :
    Shown source (.scalar tag text) := by
  intro _ _ part
  cases part
  exact shows

theorem shown_empty : Shown source (.scalar tag "") := shown_scalar Text.IsJoint.nil.shows

theorem shown_sequence {items : List Node} (each : ∀ item ∈ items, item.Shown source) :
    Shown source (.sequence tag items) := by
  intro _ _ part
  cases part with
  | item member inside => exact each _ member _ _ inside

theorem shown_mapping {entries : List (Node × Node)}
    (each : ∀ entry ∈ entries, entry.1.Shown source ∧ entry.2.Shown source) :
    Shown source (.mapping tag entries) := by
  intro _ _ part
  cases part with
  | key member inside => exact (each _ member).1 _ _ inside
  | value member inside => exact (each _ member).2 _ _ inside

end shown

/-! ### Readers -/

/-- The tokens ahead and the nodes of the anchors have their words from the text. -/
structure Reading.Shown (source : List Char) (reading : Reading) : Prop where
  tokens : ∀ token ∈ reading.tokens, token.Shown source
  anchors : ∀ entry ∈ reading.anchors, ∀ node, entry.2 = some node → node.Shown source

def Reads {α : Type} (source : List Char) (good : α → Prop) (reader : Reader α) : Prop :=
  ∀ reading, reading.Shown source →
    Yields source (fun result => good result.1 ∧ result.2.Shown source) (reader reading)

namespace Reads
variable {α β : Type} {source : List Char} {good : α → Prop} {fine : β → Prop}
  {reader other : Reader α} {next : α → Reader β}

theorem bind (reads : Reads source good reader) (later : ∀ value, good value → Reads source fine (next value)) :
    Reads source fine (reader >>= next) := by
  intro reading shown
  exact (reads reading shown).bind fun result holds => later result.1 holds.1 result.2 holds.2

theorem pure {value : α} (holds : good value) : Reads source good (Pure.pure value : Reader α) :=
  fun _ shown => .ok ⟨holds, shown⟩

theorem empty : Reads source (·.Shown source) (Pure.pure emptyScalar : Reader Node) := pure shown_empty

theorem malformed : Reads source good Node.malformed := fun _ _ => .malformed

theorem ite {branch : Prop} [Decidable branch] (yes : Reads source good reader)
    (no : Reads source good other) : Reads source good (if branch then reader else other) := by
  split
  · exact yes
  · exact no

theorem peek : Reads source (·.Shown source) Node.peek := by
  intro reading shown
  refine .ok ⟨?_, shown⟩
  cases same : reading.tokens with
  | nil => trivial
  | cons token tokens => exact shown.tokens token (same ▸ List.mem_cons_self)

theorem drop : Reads source (fun _ => True) Node.drop := fun _ shown =>
  .ok ⟨trivial, fun token member => shown.tokens token (List.mem_of_mem_tail member), shown.anchors⟩

theorem accept (token : Token) : Reads source (fun _ => True) (Node.accept token) := by
  intro reading shown
  unfold Node.accept
  split
  · exact .ok ⟨trivial, fun token member => shown.tokens token (List.mem_of_mem_tail member), shown.anchors⟩
  · exact .ok ⟨trivial, shown⟩

theorem setAnchor (name : Option String) {node : Option Node}
    (holds : ∀ known, node = some known → known.Shown source) :
    Reads source (fun _ => True) (Node.setAnchor name node) := by
  intro reading shown
  unfold Node.setAnchor
  split
  · exact .ok ⟨trivial, shown⟩
  · refine .ok ⟨trivial, shown.tokens, fun entry member => ?_⟩
    rcases Entries.mem_put member with rfl | old
    · exact holds
    · exact shown.anchors entry old

theorem aliased (name : String) : Reads source (·.Shown source) (Node.aliased name) := by
  intro reading shown
  unfold Node.aliased
  split
  next node found => exact .ok ⟨shown.anchors _ (Entries.mem_of_get? found) node rfl, shown⟩
  next => exact .malformed

theorem resolveTag (tag : WrittenTag) : Reads source (fun _ => True) (Node.resolveTag tag) := by
  intro reading shown
  unfold Node.resolveTag
  split
  · exact .ok ⟨trivial, shown⟩
  · split
    · exact .ok ⟨trivial, shown⟩
    · exact .malformed

theorem anchored (name : Option String) {node : Node} (shown : node.Shown source) :
    Reads source (·.Shown source) (Node.anchored name node) := by
  refine (setAnchor name fun known same => ?_).bind fun _ _ => .pure shown
  exact Option.some.inj same ▸ shown

theorem properties : Reads source (fun _ => True) Node.properties := by
  unfold Node.properties
  refine peek.bind fun token _ => ?_
  split
  · refine drop.bind fun _ _ => peek.bind fun token _ => ?_
    split
    · exact drop.bind fun _ _ => (resolveTag _).bind fun _ _ => .pure trivial
    · exact .pure trivial
  · refine drop.bind fun _ _ => peek.bind fun token _ => ?_
    split
    · exact drop.bind fun _ _ => (resolveTag _).bind fun _ _ => .pure trivial
    · exact (resolveTag _).bind fun _ _ => .pure trivial
  · exact .pure trivial

theorem readEmpty (anchor tag : Option String) :
    Reads source (·.Shown source) (Node.readEmpty anchor tag) := by
  unfold Node.readEmpty
  exact .ite (anchored anchor shown_empty) .malformed

end Reads

/-! ### Trees -/

/-- Every reader of a tree gives parts whose words come from the text, in so many steps. -/
structure ReadsTrees (source : List Char) (steps : Nat) : Prop where
  node : ∀ context, Reads source (·.Shown source) (read steps context)
  part : Reads source (·.Shown source) (readBlockPart steps)
  blockItems : Reads source (∀ item ∈ ·, item.Shown source) (readBlockItems steps)
  indentlessItems : Reads source (∀ item ∈ ·, item.Shown source) (readIndentlessItems steps)
  flowItems : ∀ first, Reads source (∀ item ∈ ·, item.Shown source) (readFlowItems steps first)
  blockEntries : Reads source (∀ entry ∈ ·, entry.1.Shown source ∧ entry.2.Shown source)
    (readBlockEntries steps)
  flowEntries : ∀ first, Reads source (∀ entry ∈ ·, entry.1.Shown source ∧ entry.2.Shown source)
    (readFlowEntries steps first)

section trees
variable {source : List Char} {steps : Nat}

theorem reads_fresh {α : Type} {good : α → Prop} (anchor : Option String) {rest : Reader α}
    (reads : Reads source good rest) :
    Reads source good (match anchor with
      | some name => do
        if (← get).anchors.has name = true then (malformed : Reader Unit) >>= fun _ => rest else rest
      | none => rest) := by
  cases anchor with
  | none => exact reads
  | some name =>
    have get : Reads source (fun _ => True) (get : Reader Reading) := fun _ shown => .ok ⟨trivial, shown⟩
    exact get.bind fun _ _ => .ite (Reads.malformed.bind fun _ (_ : True) => reads) reads

theorem read_reads (trees : ReadsTrees source steps) (context : Context) :
    Reads source (·.Shown source) (read (steps + 1) context) := by
  unfold read
  refine Reads.peek.bind fun token _ => ?_
  split
  · exact Reads.drop.bind fun _ _ => .aliased _
  refine Reads.properties.bind fun properties _ => ?_
  obtain ⟨anchor, tag⟩ := properties
  have begun : Reads source (fun _ => True) (setAnchor anchor none) := .setAnchor anchor (by simp)
  have sequence {items : Reader (List Node)} (reads : Reads source (∀ item ∈ ·, item.Shown source) items) :
      Reads source (·.Shown source)
        (setAnchor anchor none >>= fun _ => items >>= fun items =>
          anchored anchor (.sequence (collectionTag tag) items)) :=
    begun.bind fun _ _ => reads.bind fun items each => .anchored anchor (shown_sequence each)
  have mapping {entries : Reader (List (Node × Node))}
      (reads : Reads source (∀ entry ∈ ·, entry.1.Shown source ∧ entry.2.Shown source) entries) :
      Reads source (·.Shown source)
        (setAnchor anchor none >>= fun _ => entries >>= fun entries =>
          anchored anchor (.mapping (collectionTag tag) entries)) :=
    begun.bind fun _ _ => reads.bind fun entries each => .anchored anchor (shown_mapping each)
  refine reads_fresh anchor (Reads.peek.bind fun token shown => ?_)
  split
  · exact Reads.drop.bind fun _ _ => .anchored anchor (shown_scalar shown)
  · exact Reads.drop.bind fun _ _ => sequence (trees.flowItems true)
  · exact Reads.drop.bind fun _ _ => mapping (trees.flowEntries true)
  · exact .ite (Reads.drop.bind fun _ _ => sequence trees.blockItems) (.readEmpty anchor tag)
  · exact .ite (Reads.drop.bind fun _ _ => mapping trees.blockEntries) (.readEmpty anchor tag)
  · exact .ite (sequence trees.indentlessItems) (.readEmpty anchor tag)
  · exact .readEmpty anchor tag

theorem readBlockPart_reads (trees : ReadsTrees source steps) :
    Reads source (·.Shown source) (readBlockPart (steps + 1)) := by
  unfold readBlockPart
  refine Reads.peek.bind fun token _ => ?_
  split
  · exact .pure shown_empty
  · exact .pure shown_empty
  · exact .pure shown_empty
  · exact trees.node _

theorem readBlockItems_reads (trees : ReadsTrees source steps) :
    Reads source (∀ item ∈ ·, item.Shown source) (readBlockItems (steps + 1)) := by
  have later (item : Node) (shown : item.Shown source) :
      Reads source (∀ item ∈ ·, item.Shown source)
        (readBlockItems steps >>= fun items => pure (item :: items)) :=
    trees.blockItems.bind fun items each => .pure (List.forall_mem_cons.mpr ⟨shown, each⟩)
  unfold readBlockItems
  refine Reads.peek.bind fun token _ => ?_
  split
  · refine Reads.drop.bind fun _ _ => Reads.peek.bind fun token _ => ?_
    dsimp only
    split
    · exact Reads.empty.bind later
    · exact Reads.empty.bind later
    · exact (trees.node _).bind later
  · exact Reads.drop.bind fun _ _ => .pure (by simp)
  · exact .malformed

theorem readIndentlessItems_reads (trees : ReadsTrees source steps) :
    Reads source (∀ item ∈ ·, item.Shown source) (readIndentlessItems (steps + 1)) := by
  have later (item : Node) (shown : item.Shown source) :
      Reads source (∀ item ∈ ·, item.Shown source)
        (readIndentlessItems steps >>= fun items => pure (item :: items)) :=
    trees.indentlessItems.bind fun items each => .pure (List.forall_mem_cons.mpr ⟨shown, each⟩)
  unfold readIndentlessItems
  refine Reads.peek.bind fun token _ => ?_
  split
  · refine Reads.drop.bind fun _ _ => Reads.peek.bind fun token _ => ?_
    dsimp only
    split
    · exact Reads.empty.bind later
    · exact Reads.empty.bind later
    · exact Reads.empty.bind later
    · exact Reads.empty.bind later
    · exact (trees.node _).bind later
  · exact .pure (by simp)

theorem readBlockEntries_reads (trees : ReadsTrees source steps) :
    Reads source (∀ entry ∈ ·, entry.1.Shown source ∧ entry.2.Shown source)
      (readBlockEntries (steps + 1)) := by
  unfold readBlockEntries
  refine Reads.peek.bind fun token _ => ?_
  split
  · refine Reads.drop.bind fun _ _ => trees.part.bind fun key named => ?_
    have later (value : Node) (shown : value.Shown source) :
        Reads source (∀ entry ∈ ·, entry.1.Shown source ∧ entry.2.Shown source)
          (readBlockEntries steps >>= fun entries => pure ((key, value) :: entries)) :=
      trees.blockEntries.bind fun entries each => .pure (List.forall_mem_cons.mpr ⟨⟨named, shown⟩, each⟩)
    refine (Reads.accept .value).bind fun taken _ => ?_
    exact .ite (trees.part.bind later) (Reads.empty.bind later)
  · exact Reads.drop.bind fun _ _ => .pure (by simp)
  · exact .malformed

theorem reads_comma {α : Type} {good : α → Prop} (first : Bool) {rest : Reader α}
    (reads : Reads source good rest) :
    Reads source good (if (!first) = true then do
      if (!(← accept .flowEntry)) = true then (malformed : Reader Unit) >>= fun _ => rest else rest
    else rest) :=
  .ite ((Reads.accept .flowEntry).bind fun _ _ =>
    .ite (Reads.malformed.bind fun _ (_ : True) => reads) reads) reads

theorem readFlowItems_reads (trees : ReadsTrees source steps) (first : Bool) :
    Reads source (∀ item ∈ ·, item.Shown source) (readFlowItems (steps + 1) first) := by
  have later (item : Node) (shown : item.Shown source) :
      Reads source (∀ item ∈ ·, item.Shown source)
        (readFlowItems steps false >>= fun items => pure (item :: items)) :=
    (trees.flowItems false).bind fun items each => .pure (List.forall_mem_cons.mpr ⟨shown, each⟩)
  unfold readFlowItems
  refine (Reads.accept .flowSequenceEnd).bind fun ended _ => .ite (.pure (by simp)) ?_
  refine reads_comma first ((Reads.accept .key).bind fun keyed _ => .ite ?key ?item)
  case item =>
    exact (Reads.accept .flowSequenceEnd).bind fun ended _ =>
      .ite (.pure (by simp)) ((trees.node _).bind later)
  case key =>
    have single (key : Node) (named : key.Shown source) (value : Node) (shown : value.Shown source) :=
      later (.mapping (.unwritten true) [(key, value)])
        (shown_mapping (List.forall_mem_singleton.mpr ⟨named, shown⟩))
    refine Reads.peek.bind fun token _ => ?_
    dsimp only
    split
    -- The key is empty before three tokens; the same comes after each key.
    all_goals first
      | refine Reads.empty.bind fun key named => ?_
      | refine (trees.node _).bind fun key named => ?_
    all_goals
      refine (Reads.accept .value).bind fun taken _ =>
        .ite (Reads.peek.bind fun token _ => ?_) (Reads.empty.bind (single key named))
      split
      · exact Reads.empty.bind (single key named)
      · exact Reads.empty.bind (single key named)
      · exact (trees.node _).bind (single key named)

theorem readFlowEntries_reads (trees : ReadsTrees source steps) (first : Bool) :
    Reads source (∀ entry ∈ ·, entry.1.Shown source ∧ entry.2.Shown source)
      (readFlowEntries (steps + 1) first) := by
  have later (key : Node) (named : key.Shown source) (value : Node) (shown : value.Shown source) :
      Reads source (∀ entry ∈ ·, entry.1.Shown source ∧ entry.2.Shown source)
        (readFlowEntries steps false >>= fun entries => pure ((key, value) :: entries)) :=
    (trees.flowEntries false).bind fun entries each =>
      .pure (List.forall_mem_cons.mpr ⟨⟨named, shown⟩, each⟩)
  unfold readFlowEntries
  refine (Reads.accept .flowMappingEnd).bind fun ended _ => .ite (.pure (by simp)) ?_
  refine reads_comma first ((Reads.accept .key).bind fun keyed _ => .ite ?key ?alone)
  case alone =>
    exact (Reads.accept .flowMappingEnd).bind fun ended _ =>
      .ite (.pure (by simp)) ((trees.node _).bind fun key named => later key named _ shown_empty)
  case key =>
    refine Reads.peek.bind fun token _ => ?_
    dsimp only
    split
    all_goals first
      | refine Reads.empty.bind fun key named => ?_
      | refine (trees.node _).bind fun key named => ?_
    all_goals
      refine (Reads.accept .value).bind fun taken _ =>
        .ite (Reads.peek.bind fun token _ => ?_) (Reads.empty.bind (later key named))
      split
      · exact Reads.empty.bind (later key named)
      · exact Reads.empty.bind (later key named)
      · exact (trees.node _).bind (later key named)

theorem readsTrees (source : List Char) (steps : Nat) : ReadsTrees source steps := by
  induction steps with
  | zero =>
    constructor
    all_goals intros
    all_goals exact Reads.malformed
  | succ steps trees =>
    exact { node := read_reads trees, part := readBlockPart_reads trees
            blockItems := readBlockItems_reads trees, indentlessItems := readIndentlessItems_reads trees
            flowItems := readFlowItems_reads trees, blockEntries := readBlockEntries_reads trees
            flowEntries := readFlowEntries_reads trees }

end trees

/-! ### Documents -/

section documents
variable {source : List Char}

theorem readDirectives_reads (steps : Nat) (version : Bool) (handles : Entries String String) :
    Reads source (fun _ => True) (readDirectives steps version handles) := by
  induction steps generalizing version handles with
  | zero => exact .malformed
  | succ steps ih =>
    unfold readDirectives
    refine Reads.peek.bind fun token _ => ?_
    split
    · refine Reads.drop.bind fun _ _ => ?_
      split
      · exact .ite .malformed (ih _ _)
      · exact .ite .malformed (ih _ _)
      · exact ih _ _
    · exact .pure trivial

theorem dropDocumentEnds_reads (steps : Nat) : Reads source (fun _ => True) (dropDocumentEnds steps) := by
  induction steps with
  | zero => exact .malformed
  | succ steps ih =>
    unfold dropDocumentEnds
    exact (Reads.accept .documentEnd).bind fun _ _ => .ite ih (.pure trivial)

theorem reads_start (steps : Nat) {good : Option Node → Prop} {rest : Reader (Option Node)}
    (reads : Reads source good rest) :
    Reads source good (do
      let handles ← readDirectives steps false []
      modify (fun reading => { reading with handles })
      if !(← accept .documentStart) then (malformed : Reader Unit) >>= fun _ => rest else rest) := by
  refine (readDirectives_reads steps false []).bind fun handles _ => ?_
  have modified : Reads source (fun _ => True)
      (modify (fun reading => { reading with handles }) : Reader PUnit) :=
    fun _ shown => .ok ⟨trivial, shown.tokens, shown.anchors⟩
  refine modified.bind fun _ _ => (Reads.accept .documentStart).bind fun _ _ => ?_
  exact .ite (Reads.malformed.bind fun _ (_ : True) => reads) reads

theorem readDocument_reads (steps : Nat) :
    Reads source (∀ root ∈ ·, Shown source root) (readDocument steps) := by
  have rooted (root : Node) (shown : root.Shown source) :
      Reads source (∀ root ∈ ·, Shown source root) (pure (some root) : Reader (Option Node)) :=
    .pure fun _ same => Option.some.inj same ▸ shown
  have tree := ((readsTrees source steps).node ⟨true, false⟩).bind rooted
  unfold readDocument
  refine Reads.peek.bind fun token _ => ?_
  split
  · exact .pure fun _ same => by cases same
  iterate 2
    · refine reads_start steps (Reads.peek.bind fun token _ => ?_)
      split
      · exact rooted _ shown_empty
      · exact rooted _ shown_empty
      · exact rooted _ shown_empty
      · exact rooted _ shown_empty
      · exact tree
  · exact tree

theorem ofText_yields (text : List Char) :
    Yields text (∀ root ∈ ·, root.Shown text) (ofText text) := by
  unfold ofText
  refine (Tokens.ofText_yields text).bind fun tokens shown => ?_
  have whole : Reads text (∀ root ∈ ·, Shown text root) (do
      let root ← readDocument (4 * tokens.length + 4)
      dropDocumentEnds (4 * tokens.length + 4)
      if (← peek) = .streamEnd then return root else malformed) := by
    refine (readDocument_reads _).bind fun root shown => (dropDocumentEnds_reads _).bind fun _ _ => ?_
    exact Reads.peek.bind fun _ _ => .ite (.pure shown) .malformed
  exact (whole _ ⟨shown, by simp⟩).bind fun result holds => .ok holds.1

end documents
end Node
end ToolGraph.Yaml
