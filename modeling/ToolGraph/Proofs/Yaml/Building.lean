import ToolGraph.Proofs.Lists
import ToolGraph.Proofs.Value
import ToolGraph.Proofs.Yaml.Nodes
import ToolGraph.Yaml.Document

/-!
What a YAML document is built to. The keys of its mappings are texts of its scalars, and besides malformed
documents only a scalar whose text has no value of its type keeps it from being built.
-/
namespace ToolGraph.Yaml
namespace Node

/-! ### Parts that are built -/

theorem IsPart.trans {part middle whole : Node} (inner : IsPart part middle) (outer : IsPart middle whole) :
    IsPart part whole := by
  induction outer with
  | all => exact inner
  | item member _ ih => exact .item member ih
  | key member _ ih => exact .key member ih
  | value member _ ih => exact .value member ih

theorem IsPart.items {root : Node} {tag : Tag} {items : List Node}
    (inside : IsPart (.sequence tag items) root) : ∀ item ∈ items, item.IsPart root :=
  fun _ member => (IsPart.item member .all).trans inside

theorem IsPart.entries {root : Node} {tag : Tag} {entries : List (Node × Node)}
    (inside : IsPart (.mapping tag entries) root) :
    ∀ entry ∈ entries, entry.1.IsPart root ∧ entry.2.IsPart root :=
  fun _ member => ⟨(IsPart.key member .all).trans inside, (IsPart.value member .all).trans inside⟩

def HasText (root : Node) (text : String) : Prop := ∃ tag, IsPart (.scalar tag text) root

theorem HasText.part {root part : Node} {text : String} (has : part.HasText text) (inside : part.IsPart root) :
    root.HasText text :=
  has.imp fun _ scalar => scalar.trans inside

def IsValueless (node : Node) (error : Error) : Prop :=
  ∃ kind text, node.kind? = some kind ∧ node.text? = some text ∧
    scalarValue kind node.isScalar (some text) = .error (0, error)

def Fails (root : Node) (error : Error) : Prop :=
  error = .malformed ∨ ∃ part : Node, part.IsPart root ∧ part.IsValueless error

/-- A part of the tree is built to something good, unless the tree fails. -/
inductive Builds {α : Type} (root : Node) (good : α → Prop) : Built α → Prop where
  | ok {value : α} (holds : good value) : Builds root good (.ok value)
  | error {level : Nat} {error : Error} (fails : root.Fails error) : Builds root good (.error (level, error))

namespace Builds
variable {α β : Type} {root : Node} {good : α → Prop} {fine : β → Prop} {built : Built α} {other : Built β}

theorem malformed : Builds root good (Built.fail .malformed) := .error (.inl rfl)

theorem imp {other : α → Prop} (builds : Builds root good built)
    (later : ∀ value, good value → other value) : Builds root other built := by
  cases builds with
  | ok holds => exact .ok (later _ holds)
  | error fails => exact .error fails

theorem map {f : α → β} (builds : Builds root good built) (later : ∀ value, good value → fine (f value)) :
    Builds root fine (built.map f) := by
  cases builds with
  | ok holds => exact .ok (later _ holds)
  | error fails => exact .error fails

theorem below (builds : Builds root good built) : Builds root good built.below := by
  cases builds with
  | ok holds => exact .ok holds
  | error fails => exact .error fails

theorem both (left : Builds root good built) (right : Builds root fine other) :
    Builds root (fun both => good both.1 ∧ fine both.2) (built.both other) := by
  cases left with
  | ok holds =>
    cases right with
    | ok holds' => exact .ok ⟨holds, holds'⟩
    | error fails => exact .error fails
  | error fails =>
    cases right with
    | ok holds => exact .error fails
    | error fails' =>
      simp only [Built.both]
      split
      · exact .error fails'
      · exact .error fails

end Builds

/-! ### Scalars -/

section scalars
variable {root node : Node} {kind : Kind} {text : String}

/-- A text stays what it is. Values of other types are no texts, and none is a mapping. -/
theorem scalarValue_eq_ok {scalar : Bool} {given : Option String} {value : Value}
    (made : scalarValue kind scalar given = .ok value) :
    (∀ text, value = .text text → given = some text) ∧ ∀ table, value ≠ .map table := by
  cases given with
  | none => cases made
  | some given =>
    have made := mapError_eq_ok.mp made
    cases kind with
    | text =>
      obtain rfl := Except.ok.inj made
      exact ⟨fun text same => congrArg some (Value.text.inj same), by simp⟩
    | null =>
      obtain rfl := Except.ok.inj made
      exact ⟨by simp, by simp⟩
    | bool | int | float =>
      obtain ⟨_, _, rfl⟩ := map_eq_ok.mp made
      exact ⟨by simp, by simp⟩
    | timestamp =>
      cases scalar with
      | false => cases made
      | true =>
        simp only [timestampValue, if_true] at made
        split at made
        · cases made
        all_goals
          split at made
          · obtain rfl := Except.ok.inj made
            exact ⟨by simp, by simp⟩
          · cases made
    | binary =>
      simp only [binaryValue] at made
      split at made
      · split at made
        · obtain rfl := Except.ok.inj made
          exact ⟨by simp, by simp⟩
        · cases made
      · cases made
    | merge | default | sequence | mapping | set | ordered => cases made

theorem level_of_ofScalar {value : Except Error Value} {level : Nat} {error : Error}
    (failed : Built.ofScalar value = .error (level, error)) : level = 0 := by
  cases value with
  | ok value => cases failed
  | error own =>
    obtain ⟨rfl, -⟩ := Prod.mk.inj (Except.error.inj failed)
    rfl

mutual

theorem hasText_of_text? (node : Node) (found : node.text? = some text) : node.HasText text := by
  match node with
  | .scalar tag own =>
    obtain rfl : own = text := Option.some.inj found
    exact ⟨tag, .all⟩
  | .sequence _ _ => cases found
  | .mapping _ entries =>
    obtain ⟨entry, member, has⟩ := hasText_of_defaultText? entries found
    exact has.part (.value member .all)
termination_by structural node

theorem hasText_of_defaultText? (entries : List (Node × Node)) (found : defaultText? entries = some text) :
    ∃ entry ∈ entries, entry.2.HasText text := by
  match entries with
  | [] => cases found
  | (key, value) :: entries =>
    unfold defaultText? at found
    split at found
    · exact ⟨_, List.mem_cons_self, hasText_of_text? value found⟩
    · obtain ⟨entry, member, has⟩ := hasText_of_defaultText? entries found
      exact ⟨entry, List.mem_cons_of_mem _ member, has⟩
termination_by structural entries

end

end scalars

/-! ### Tables -/

section tables
variable {root : Node}

def HasKeys (root : Node) (table : List (Value × Value)) : Prop :=
  ∀ entry ∈ table, ∀ text, entry.1 = .text text → root.HasText text

theorem HasKeys.append {table more : List (Value × Value)} (keys : root.HasKeys table)
    (keys' : root.HasKeys more) : root.HasKeys (table ++ more) :=
  fun entry member => (List.mem_append.mp member).elim (keys entry) (keys' entry)

theorem HasKeys.put {table : List (Value × Value)} {key value : Value} (keys : root.HasKeys table)
    (own : ∀ text, key = .text text → root.HasText text) : root.HasKeys (Value.putEntry table key value) := by
  induction table with
  | nil => exact List.forall_mem_singleton.mpr own
  | cons entry table ih =>
    obtain ⟨first, later⟩ := List.forall_mem_cons.mp keys
    unfold Value.putEntry
    split
    · exact List.forall_mem_cons.mpr ⟨first, later⟩
    · exact List.forall_mem_cons.mpr ⟨first, ih later⟩

theorem HasKeys.table {entries : List (Value × Value)} (keys : root.HasKeys entries) :
    root.HasKeys (tableOf entries) := by
  suffices folded : ∀ table, root.HasKeys table →
      root.HasKeys (entries.foldl (fun table entry => Value.putEntry table entry.1 entry.2) table) from
    folded [] (by simp [HasKeys])
  induction entries with
  | nil => exact fun _ keys => keys
  | cons entry entries ih =>
    obtain ⟨first, later⟩ := List.forall_mem_cons.mp keys
    exact fun table keys => ih later _ (keys.put first)

theorem tableFrom_builds {entries : List (Node × Node)}
    {parts : Built (List (Value × Value) × List (Value × Value))}
    (builds : Builds root (fun parts => root.HasKeys parts.1 ∧ root.HasKeys parts.2) parts) :
    Builds root root.HasKeys (tableFrom entries parts) := by
  unfold tableFrom
  split
  · exact builds.map fun parts keys => (keys.1.append keys.2).table
  · exact .malformed

theorem keyOf_builds {node : Node} {built : Built Value} (inside : node.IsPart root)
    (builds : Builds root (fun value => ∀ text, value = .text text → root.HasText text) built) :
    Builds root (fun value => ∀ text, value = .text text → root.HasText text) (keyOf node built) := by
  unfold keyOf
  split
  next tag own =>
    refine .ok fun text same => ?_
    obtain rfl := Value.text.inj same
    exact ⟨_, inside⟩
  all_goals first | exact .malformed | exact builds

end tables

/-! ### Documents -/

/-- A text that is built, or a key of a mapping that is a text, is that of a scalar in the tree. -/
structure HasWords (root : Node) (value : Value) : Prop where
  text : ∀ text, value = .text text → root.HasText text
  keys : ∀ table, value = .map table → root.HasKeys table

section documents
variable {root : Node}

theorem hasWords_map {table : List (Value × Value)} (keys : root.HasKeys table) : root.HasWords (.map table) :=
  ⟨by simp, fun _ same => Value.map.inj same ▸ keys⟩

theorem scalarValue_builds {node : Node} {kind : Kind} (inside : node.IsPart root)
    (typed : node.kind? = some kind) :
    Builds root root.HasWords (scalarValue kind node.isScalar node.text?) := by
  cases made : scalarValue kind node.isScalar node.text? with
  | ok value =>
    obtain ⟨texts, noMap⟩ := scalarValue_eq_ok made
    refine .ok ⟨fun text same => ?_, fun table same => absurd same (noMap table)⟩
    exact (hasText_of_text? node (texts text same)).part inside
  | error failure =>
    cases found : node.text? with
    | none =>
      rw [found] at made
      cases made
      exact .malformed
    | some text =>
      rw [found] at made
      obtain ⟨level, error⟩ := failure
      obtain rfl : level = 0 := level_of_ofScalar made
      exact .error (.inr ⟨node, inside, kind, text, typed, found, made⟩)

theorem list_builds {items : Built (List Value)} {wrap : List Value → Value}
    (builds : Builds root (fun _ => True) items) (text : ∀ items text, wrap items ≠ .text text)
    (map : ∀ items table, wrap items ≠ .map table) : Builds root root.HasWords (Built.below (items.map wrap)) :=
  (builds.map fun items _ => ⟨fun _ same => absurd same (text items _),
    fun _ same => absurd same (map items _)⟩).below

mutual

theorem build_builds (node : Node) (inside : node.IsPart root) : Builds root root.HasWords node.build := by
  match node with
  | .scalar tag text =>
    unfold build
    split
    next => exact .malformed
    all_goals try exact Builds.malformed.below
    next kind _ _ _ _ typed => exact scalarValue_builds inside typed
  | .sequence tag items =>
    unfold build
    split
    · exact list_builds (buildItems_builds items inside.items) (by simp) (by simp)
    · exact list_builds (buildPairs_builds items inside.items) (by simp) (by simp)
    · exact Builds.malformed.below
    · exact Builds.malformed.below
    · exact .malformed
  | .mapping tag entries =>
    have table : Builds root root.HasKeys (tableFrom entries (buildEntries entries)) :=
      tableFrom_builds (buildEntries_builds entries inside.entries)
    unfold build
    split
    · exact (table.map fun _ keys => hasWords_map keys).below
    · exact (table.map fun _ _ => ⟨by simp, by simp⟩).below
    · exact Builds.malformed.below
    · exact Builds.malformed.below
    next kind _ _ _ _ typed => exact scalarValue_builds inside typed
    · exact .malformed
termination_by structural node

theorem buildItems_builds (items : List Node) (inside : ∀ item ∈ items, item.IsPart root) :
    Builds root (fun _ => True) (buildItems items) := by
  match items with
  | [] => exact .ok trivial
  | item :: items =>
    obtain ⟨first, later⟩ := List.forall_mem_cons.mp inside
    exact ((build_builds item first).both (buildItems_builds items later)).map fun _ _ => trivial
termination_by structural items

theorem buildPairs_builds (items : List Node) (inside : ∀ item ∈ items, item.IsPart root) :
    Builds root (fun _ => True) (buildPairs items) := by
  match items with
  | [] => exact .ok trivial
  | item :: items =>
    obtain ⟨first, later⟩ := List.forall_mem_cons.mp inside
    exact ((buildPair_builds item first).both (buildPairs_builds items later)).map fun _ _ => trivial
termination_by structural items

theorem buildPair_builds (node : Node) (inside : node.IsPart root) :
    Builds root (fun _ => True) (buildPair node) := by
  match node with
  | .mapping _ [(key, value)] =>
    obtain ⟨first, second⟩ := inside.entries (key, value) List.mem_cons_self
    exact ((build_builds key first).both (build_builds value second)).map fun _ _ => trivial
  | .mapping _ [] | .mapping _ (_ :: _ :: _) | .scalar _ _ | .sequence _ _ => exact .malformed
termination_by structural node

theorem buildEntries_builds (entries : List (Node × Node))
    (inside : ∀ entry ∈ entries, entry.1.IsPart root ∧ entry.2.IsPart root) :
    Builds root (fun parts => root.HasKeys parts.1 ∧ root.HasKeys parts.2) (buildEntries entries) := by
  match entries with
  | [] => exact .ok ⟨by simp [HasKeys], by simp [HasKeys]⟩
  | (key, value) :: entries =>
    obtain ⟨⟨first, second⟩, later⟩ := List.forall_mem_cons.mp inside
    have others := buildEntries_builds entries later
    unfold buildEntries
    split
    · exact ((buildMerged_builds value second).both others).map fun both keys =>
        ⟨keys.1.append keys.2.1, keys.2.2⟩
    · have keyed := keyOf_builds first ((build_builds key first).imp fun _ words => words.text)
      refine ((keyed.both (build_builds value second)).both others).map fun both keys => ⟨keys.2.1, ?_⟩
      exact List.forall_mem_cons.mpr ⟨keys.1.1, keys.2.2⟩
termination_by structural entries

theorem buildMerged_builds (node : Node) (inside : node.IsPart root) :
    Builds root root.HasKeys (buildMerged node) := by
  match node with
  | .mapping _ entries =>
    exact (buildEntries_builds entries inside.entries).map fun _ keys => keys.1.append keys.2
  | .sequence _ items => exact buildMergedItems_builds items inside.items
  | .scalar _ _ => exact .malformed
termination_by structural node

theorem buildMergedItems_builds (items : List Node) (inside : ∀ item ∈ items, item.IsPart root) :
    Builds root root.HasKeys (buildMergedItems items) := by
  match items with
  | [] => exact .ok (by simp [HasKeys])
  | .mapping tag entries :: items =>
    obtain ⟨first, later⟩ := List.forall_mem_cons.mp inside
    have own : Builds root root.HasKeys ((buildEntries entries).map fun parts => parts.1 ++ parts.2) :=
      (buildEntries_builds entries first.entries).map fun _ keys => keys.1.append keys.2
    exact (own.both (buildMergedItems_builds items later)).map fun _ keys => keys.2.append keys.1
  | .scalar _ _ :: _ | .sequence _ _ :: _ => exact .malformed
termination_by structural items

end
end documents
end Node

/-! ### Texts -/

section parse
variable {text : String}

/-- A text has no data for an error other than that it is malformed because of an escape whose code no
character has, or because of a node whose text has no value of its type. -/
theorem parse_error {error : Error} (failed : parse text = .error error) (other : error ≠ .malformed) :
    HasImpossibleEscape text.toList ∨
      ∃ root part : Node, Node.ofText text.toList = .ok (some root) ∧ part.IsPart root ∧
        part.IsValueless error := by
  have yields := Node.ofText_yields text.toList
  rcases bind_eq_error.mp failed with failed | ⟨root, read, failed⟩
  · rw [failed] at yields
    exact .inl (yields.malformed_or_escape.resolve_left other)
  · cases root with
    | none => cases failed
    | some root =>
      have builds := Node.build_builds root .all
      simp only at failed
      cases built : root.build with
      | ok value =>
        rw [built] at failed
        cases failed
      | error failure =>
        rw [built] at failed builds
        obtain rfl := Except.error.inj failed
        cases builds with
        | error fails =>
          obtain ⟨part, inside, none⟩ := fails.resolve_left other
          exact .inr ⟨root, part, read, inside, none⟩

theorem member?_verbatim {key : String} {value found : Value} (plain : '\\' ∉ text.toList)
    (letters : ∀ c ∈ key.toList, c.isAlpha = true) (read : parse text = .ok value)
    (member : value.member? key = some found) : key.toList <:+: text.toList := by
  obtain ⟨root, known, read⟩ := bind_eq_ok.mp read
  cases root with
  | none =>
    obtain rfl := pure_eq_ok.mp read
    cases member
  | some root =>
    have builds := Node.build_builds root .all
    have yields := Node.ofText_yields text.toList
    rw [mapError_eq_ok.mp read] at builds
    rw [known] at yields
    cases builds with
    | ok words =>
      cases value with
      | map table =>
        obtain ⟨entry, listed, -⟩ := Option.map_eq_some_iff.mp member
        have keyed := List.find?_some listed
        have same := Value.sameKey_text.mp keyed
        obtain ⟨tag, part⟩ := words.keys table rfl entry (List.mem_of_find?_eq_some listed) key same
        exact yields.good_of_ok root rfl tag key part plain key.toList letters List.infix_rfl
      | _ => cases member

end parse
end ToolGraph.Yaml
