import Mathlib.Logic.Relation
import ToolGraph.Proofs.OpenApi.Expansion
import ToolGraph.Proofs.Value

/-!
What inlining leaves behind. All that is no reference is copied, at the places that the expansion takes it to.
Of the references only those stay whose pointers are being expanded, with all that stands beside their
pointers. But an object with another reference under `$ref` is none, and becomes one if that leads to a text.
-/
namespace ToolGraph

namespace Value

def children : Value → List Value
  | .list items => items
  | .map entries => entries.map Prod.snd
  | _ => []

def at? : (value : Value) → (place : List Nat) → Option Value
  | value, [] => some value
  | value, position :: place => value.children[position]?.bind (·.at? place)

theorem at?_cons_eq_some {value part : Value} {position : Nat} {place : List Nat} :
    value.at? (position :: place) = some part ↔
      ∃ child, value.children[position]? = some child ∧ child.at? place = some part := by
  rw [at?, Option.bind_eq_some_iff]

end Value

namespace OpenApi

/-! ### Results -/

def Becomes (root : Value) (active : List String) (value result : Value) : Prop :=
  ∃ depth calls, Expands root active value depth calls (.ok result)

theorem ExpandsEach.becomes {root : Value} {active : List String} {items results : List Value}
    {depth calls : Nat} {outcome : Except ConversionFault (List Value)}
    (runs : ExpandsEach root active items depth calls outcome) (known : outcome = .ok results) :
    List.Forall₂ (Becomes root active) items results := by
  match runs with
  | .nil =>
    cases known
    exact .nil
  | .stopped _ => cases known
  | .cons first later =>
    obtain ⟨others, rest, rfl⟩ := map_eq_ok.mp known
    exact .cons ⟨_, _, first⟩ (later.becomes rest)
termination_by structural runs

namespace Becomes
variable {root : Value} {active : List String}

theorem of_list {items : List Value} {result : Value} (becomes : Becomes root active (.list items) result) :
    ∃ results, result = .list results ∧ List.Forall₂ (Becomes root active) items results := by
  obtain ⟨depth, calls, run⟩ := becomes
  generalize known : Except.ok result = outcome at run
  cases run with
  | leaf noList => exact absurd rfl (noList _)
  | list each =>
    obtain ⟨results, rest, rfl⟩ := map_eq_ok.mp known.symm
    exact ⟨results, rfl, each.becomes rest⟩

theorem of_map {entries : List (Value × Value)} {result : Value} (plain : reference? entries = none)
    (becomes : Becomes root active (.map entries) result) :
    ∃ values, result = .map ((entries.map Prod.fst).zip values) ∧
      List.Forall₂ (Becomes root active) (entries.map Prod.snd) values := by
  obtain ⟨depth, calls, run⟩ := becomes
  generalize known : Except.ok result = outcome at run
  cases run with
  | leaf _ noMap => exact absurd rfl (noMap _)
  | map _ each =>
    obtain ⟨values, rest, rfl⟩ := map_eq_ok.mp known.symm
    exact ⟨values, rfl, each.becomes rest⟩
  | _ => simp_all

theorem of_followed {entries : List (Value × Value)} {pointer : String} {target result : Value}
    (refers : reference? entries = some pointer) (outside : pointer ∉ active)
    (leads : Pointer.follow root pointer = .ok target) (becomes : Becomes root active (.map entries) result) :
    Becomes root (pointer :: active) target result := by
  obtain ⟨depth, calls, run⟩ := becomes
  generalize known : Except.ok result = outcome at run
  cases run with
  | leaf _ noMap => exact absurd rfl (noMap _)
  | followed refers' _ leads' inner =>
    obtain rfl := Option.some.inj (refers.symm.trans refers')
    obtain rfl := Except.ok.inj (leads.symm.trans leads')
    exact ⟨_, _, known ▸ inner⟩
  | _ => simp_all

end Becomes

/-- A property of data and what it becomes that each kind of call hands on, from its parts to the whole. -/
structure HandedOn (root : Value) (holds : List String → Value → Value → Prop) : Prop where
  leaf : ∀ {active value}, (∀ items, value ≠ .list items) → (∀ entries, value ≠ .map entries) →
    holds active value value
  list : ∀ {active items results},
    List.Forall₂ (fun item result => Becomes root active item result ∧ holds active item result)
      items results → holds active (.list items) (.list results)
  map : ∀ {active entries values}, reference? entries = none →
    List.Forall₂ (fun value result => Becomes root active value result ∧ holds active value result)
      (entries.map Prod.snd) values →
    holds active (.map entries) (.map ((entries.map Prod.fst).zip values))
  kept : ∀ {active entries pointer}, reference? entries = some pointer → pointer ∈ active →
    holds active (.map entries) (.map entries)
  followed : ∀ {active entries pointer target result}, reference? entries = some pointer →
    pointer ∉ active → Pointer.follow root pointer = .ok target →
    holds (pointer :: active) target result → holds active (.map entries) result

section induction
variable {root : Value} {holds : List String → Value → Value → Prop}

mutual

theorem Expands.handed (handedOn : HandedOn root holds) {active : List String} {value result : Value}
    {depth calls : Nat} {outcome : Except ConversionFault Value}
    (run : Expands root active value depth calls outcome) (known : outcome = .ok result) :
    holds active value result := by
  match run with
  | .leaf noList noMap => exact Except.ok.inj known ▸ handedOn.leaf noList noMap
  | .list each =>
    obtain ⟨results, rest, rfl⟩ := map_eq_ok.mp known
    exact handedOn.list (each.handed handedOn rest)
  | .map plain each =>
    obtain ⟨values, rest, rfl⟩ := map_eq_ok.mp known
    exact handedOn.map plain (each.handed handedOn rest)
  | .kept refers inside => exact Except.ok.inj known ▸ handedOn.kept refers inside
  | .lost .. => cases known
  | .followed refers outside leads inner =>
    exact handedOn.followed refers outside leads (inner.handed handedOn known)
termination_by structural run

theorem ExpandsEach.handed (handedOn : HandedOn root holds) {active : List String}
    {items results : List Value} {depth calls : Nat} {outcome : Except ConversionFault (List Value)}
    (runs : ExpandsEach root active items depth calls outcome) (known : outcome = .ok results) :
    List.Forall₂ (fun item result => Becomes root active item result ∧ holds active item result)
      items results := by
  match runs with
  | .nil =>
    cases known
    exact .nil
  | .stopped _ => cases known
  | .cons first later =>
    obtain ⟨others, rest, rfl⟩ := map_eq_ok.mp known
    exact .cons ⟨⟨_, _, first⟩, first.handed handedOn rfl⟩ (later.handed handedOn rest)
termination_by structural runs

end

theorem Becomes.handed (handedOn : HandedOn root holds) {active : List String} {value result : Value}
    (becomes : Becomes root active value result) : holds active value result :=
  let ⟨_, _, run⟩ := becomes
  run.handed handedOn rfl

end induction

inductive LeadsToText (root : Value) (text : String) : Value → Prop where
  | last {entries : List (Value × Value)} {pointer : String} (refers : reference? entries = some pointer)
      (leads : Pointer.follow root pointer = .ok (.text text)) : LeadsToText root text (.map entries)
  | next {entries : List (Value × Value)} {pointer : String} {target : Value}
      (refers : reference? entries = some pointer) (leads : Pointer.follow root pointer = .ok target)
      (later : LeadsToText root text target) : LeadsToText root text (.map entries)

theorem handedOn_text (root : Value) : HandedOn root fun _ value result =>
    ∀ text, result = .text text → value = .text text ∨ LeadsToText root text value where
  leaf _ _ _ same := .inl same
  list _ _ same := by cases same
  map _ _ _ same := by cases same
  kept _ _ _ same := by cases same
  followed refers _ leads ih text same := by
    rcases ih text same with rfl | later
    · exact .inr (.last refers leads)
    · exact .inr (.next refers leads later)

theorem handedOn_whole (root : Value) : HandedOn root fun _ value result =>
    pointers value = [] → result = value where
  leaf _ _ _ := rfl
  list each none := by
    rw [pointers, itemPointers_eq_nil] at none
    have same := forall₂_of_mem each fun item member result _ known => known.2 (none item member)
    rw [List.forall₂_eq_eq_eq.le _ _ same.flip]
  map plain each none := by
    have values : ∀ value ∈ _, pointers value = [] := List.forall_mem_map.mpr (pointers_map.mp none).2
    have same := forall₂_of_mem each fun value member result _ known => known.2 (values value member)
    rw [List.forall₂_eq_eq_eq.le _ _ same.flip, ← List.zip_of_prod rfl rfl]
  kept _ _ _ := rfl
  followed refers _ _ _ none := by simp [pointers, refers] at none

/-! ### Ways -/

/-- The ways of the expansion. At a place of what `value` becomes stands what `origin` becomes while the
pointers in `within` are being expanded. -/
inductive Way (root : Value) : (active : List String) → (value : Value) → (place : List Nat) →
    (within : List String) → (origin : Value) → Prop where
  | here {active : List String} {value : Value} : Way root active value [] active value
  | list {active within : List String} {items : List Value} {item origin : Value} {position : Nat}
      {place : List Nat} (known : items[position]? = some item)
      (rest : Way root active item place within origin) :
      Way root active (.list items) (position :: place) within origin
  | map {active within : List String} {entries : List (Value × Value)} {value origin : Value}
      {position : Nat} {place : List Nat} (plain : reference? entries = none)
      (known : (entries.map Prod.snd)[position]? = some value)
      (rest : Way root active value place within origin) :
      Way root active (.map entries) (position :: place) within origin
  | follow {active within : List String} {entries : List (Value × Value)} {pointer : String}
      {target origin : Value} {place : List Nat} (refers : reference? entries = some pointer)
      (outside : pointer ∉ active) (leads : Pointer.follow root pointer = .ok target)
      (rest : Way root (pointer :: active) target place within origin) :
      Way root active (.map entries) place within origin

namespace Way
variable {root value origin : Value} {active within : List String} {place : List Nat}

/-- Nothing but data of the document is expanded. -/
theorem isPart (way : Way root active value place within origin) (inside : value.IsPart root) :
    origin.IsPart root := by
  induction way with
  | here => exact inside
  | list known _ ih => exact ih ((Value.IsPart.item (List.mem_of_getElem? known) .all).trans inside)
  | map _ known _ ih =>
    obtain ⟨entry, member, rfl⟩ := List.mem_map.mp (List.mem_of_getElem? known)
    exact ih ((Value.IsPart.entry member .all).trans inside)
  | follow _ _ leads _ ih => exact ih (Value.isPart_of_follow leads)

theorem exists_part (way : Way root active value place within origin) {result : Value}
    (becomes : Becomes root active value result) :
    ∃ part, result.at? place = some part ∧ Becomes root within origin part := by
  induction way generalizing result with
  | here => exact ⟨result, rfl, becomes⟩
  | list known _ ih =>
    obtain ⟨results, rfl, each⟩ := becomes.of_list
    obtain ⟨own, found, related⟩ := exists_right_at_of_forall₂ each known
    obtain ⟨part, there, inner⟩ := ih related
    exact ⟨part, Value.at?_cons_eq_some.mpr ⟨own, found, there⟩, inner⟩
  | map plain known _ ih =>
    obtain ⟨values, rfl, each⟩ := becomes.of_map plain
    obtain ⟨own, found, related⟩ := exists_right_at_of_forall₂ each known
    obtain ⟨part, there, inner⟩ := ih related
    refine ⟨part, Value.at?_cons_eq_some.mpr ⟨own, ?_, there⟩, inner⟩
    rwa [Value.children, List.map_snd_zip (by simp [← each.length_eq])]
  | follow refers outside leads _ ih => exact ih (becomes.of_followed refers outside leads)

end Way

/-! ### References that are left -/

/-- Why the object `entries` with the pointer `pointer` stands at a place of what data becomes. -/
inductive Remains (root : Value) (active : List String) (value : Value) : (place : List Nat) →
    (entries : List (Value × Value)) → (pointer : String) → Prop where
  /-- It is a reference whose pointer is being expanded. -/
  | kept {place : List Nat} {within : List String} {entries : List (Value × Value)} {pointer : String}
      (way : Way root active value place within (.map entries)) (inside : pointer ∈ within) :
      Remains root active value place entries pointer
  /-- It stands in such a reference. -/
  | beside {front back : List Nat} {within : List String} {outer entries : List (Value × Value)}
      {other pointer : String} (way : Way root active value front within (.map outer))
      (refers : reference? outer = some other) (inside : other ∈ within) (deeper : back ≠ [])
      (verbatim : (Value.map outer).at? back = some (.map entries)) :
      Remains root active value (front ++ back) entries pointer
  /-- It is made of an object with a reference under `$ref` that leads to the text. -/
  | made {place : List Nat} {within : List String} {own entries : List (Value × Value)}
      {inner : Value} {pointer : String} (way : Way root active value place within (.map own))
      (under : Value.entry? own (.text "$ref") = some inner) (leads : LeadsToText root pointer inner) :
      Remains root active value place entries pointer

theorem Remains.lift {root value outer : Value} {active current : List String} {place : List Nat}
    {entries : List (Value × Value)} {pointer : String} (front : List Nat)
    (through : ∀ {rest within origin}, Way root active value rest within origin →
      Way root current outer (front ++ rest) within origin)
    (remains : Remains root active value place entries pointer) :
    Remains root current outer (front ++ place) entries pointer := by
  cases remains with
  | kept way inside => exact .kept (through way) inside
  | beside way refers inside deeper verbatim =>
    exact List.append_assoc .. ▸ .beside (through way) refers inside deeper verbatim
  | made way under leads => exact .made (through way) under leads

theorem exists_entry?_zip {R : Value → Value → Prop} {entries : List (Value × Value)}
    {values : List Value} (each : List.Forall₂ R (entries.map Prod.snd) values) {name : String}
    {result : Value}
    (found : Value.entry? ((entries.map Prod.fst).zip values) (.text name) = some result) :
    ∃ value, Value.entry? entries (.text name) = some value ∧ R value result := by
  induction entries generalizing values with
  | nil => cases found
  | cons entry entries ih =>
    obtain ⟨key, value⟩ := entry
    cases each with
    | cons first later =>
      rw [List.map_cons, List.zip_cons_cons, Value.entry?_cons] at found
      rw [Value.entry?_cons]
      split at found
      next same => exact ⟨value, if_pos same, Option.some.inj found ▸ first⟩
      next other => exact if_neg other ▸ ih later found

theorem handedOn_remains (root : Value) : HandedOn root fun active value result =>
    ∀ place entries pointer, result.at? place = some (.map entries) → reference? entries = some pointer →
      Remains root active value place entries pointer where
  leaf := by
    intro active value _ noMap place entries pointer there
    cases place with
    | nil => exact absurd (Option.some.inj there) (noMap _)
    | cons position place => cases value <;> simp_all [Value.at?, Value.children]
  list each place entries pointer there refers := by
    cases place with
    | nil => cases there
    | cons position place =>
      obtain ⟨result, found, there⟩ := Value.at?_cons_eq_some.mp there
      obtain ⟨item, known, -, ih⟩ := exists_left_at_of_forall₂ each found
      exact (ih place entries pointer there refers).lift [position] (.list known)
  map plain each place entries pointer there refers := by
    cases place with
    | nil =>
      obtain rfl := Value.map.inj (Option.some.inj there)
      obtain ⟨inner, under, becomes, -⟩ := exists_entry?_zip each (reference?_eq_some.mp refers)
      rcases becomes.handed (handedOn_text root) pointer rfl with rfl | leads
      · exact absurd (reference?_eq_some.mpr under) (by simp [plain])
      · exact .made .here under leads
    | cons position place =>
      obtain ⟨result, found, there⟩ := Value.at?_cons_eq_some.mp there
      rw [Value.children, List.map_snd_zip (by simp [← each.length_eq])] at found
      obtain ⟨item, known, -, ih⟩ := exists_left_at_of_forall₂ each found
      exact (ih place entries pointer there refers).lift [position] (.map plain known)
  kept refers inside place entries pointer there refers' := by
    cases place with
    | nil =>
      obtain rfl := Value.map.inj (Option.some.inj there)
      obtain rfl := Option.some.inj (refers.symm.trans refers')
      exact .kept .here inside
    | cons position place =>
      exact show Remains _ _ _ ([] ++ position :: place) _ _ from
        .beside .here refers inside (by simp) there
  followed refers outside leads ih place entries pointer there refers' :=
    (ih place entries pointer there refers').lift [] (.follow refers outside leads)

def MeetsItself (root : Value) (pointer : String) : Prop :=
  ∃ target place within entries, Pointer.follow root pointer = .ok target ∧
    Way root [pointer] target place within (.map entries) ∧ reference? entries = some pointer

namespace Way
variable {root value origin : Value} {active within : List String} {place : List Nat}

theorem exists_of_subset (way : Way root active value place within origin) {fewer : List String}
    (subset : fewer ⊆ active) : ∃ within, Way root fewer value place within origin := by
  induction way generalizing fewer with
  | here => exact ⟨fewer, .here⟩
  | list known _ ih =>
    obtain ⟨within, rest⟩ := ih subset
    exact ⟨within, .list known rest⟩
  | map plain known _ ih =>
    obtain ⟨within, rest⟩ := ih subset
    exact ⟨within, .map plain known rest⟩
  | follow refers outside leads _ ih =>
    obtain ⟨within, rest⟩ := ih (List.cons_subset_cons _ subset)
    exact ⟨within, .follow refers (fun inside => outside (subset inside)) leads rest⟩

theorem exists_of_mem (way : Way root active value place within origin) {pointer : String}
    (inside : pointer ∈ within) : pointer ∈ active ∨ ∃ target later before place,
      Pointer.follow root pointer = .ok target ∧
        Way root (pointer :: before) target place later origin := by
  induction way with
  | here => exact .inl inside
  | list _ _ ih => exact ih inside
  | map _ _ _ ih => exact ih inside
  | follow _ _ leads rest ih =>
    rcases ih inside with known | later
    · rcases List.mem_cons.mp known with rfl | known
      · exact .inr ⟨_, _, _, _, leads, rest⟩
      · exact .inl known
    · exact .inr later

theorem meetsItself {entries : List (Value × Value)} {pointer : String}
    (way : Way root [] value place within (.map entries)) (refers : reference? entries = some pointer)
    (inside : pointer ∈ within) : MeetsItself root pointer := by
  rcases way.exists_of_mem inside with none | ⟨target, later, before, place, leads, rest⟩
  · simp at none
  · have subset : [pointer] ⊆ pointer :: before := by simp
    obtain ⟨within, rest⟩ := rest.exists_of_subset subset
    exact ⟨target, place, within, entries, leads, rest, refers⟩

end Way

theorem exists_at?_of_mem_pointers {value : Value} {pointer : String}
    (member : pointer ∈ pointers value) :
    ∃ place entries, value.at? place = some (.map entries) ∧ reference? entries = some pointer := by
  induction value using Value.induct with
  | list items ih =>
    obtain ⟨item, known, own⟩ := mem_itemPointers.mp member
    obtain ⟨position, found⟩ := List.mem_iff_getElem?.mp known
    obtain ⟨place, entries, there, refers⟩ := ih item known own
    exact ⟨position :: place, entries, Value.at?_cons_eq_some.mpr ⟨item, found, there⟩, refers⟩
  | map outer ih =>
    rcases List.mem_append.mp member with own | later
    · exact ⟨[], outer, rfl, by simpa using own⟩
    · obtain ⟨entry, known, own⟩ := mem_entryPointers.mp later
      obtain ⟨position, found⟩ := List.mem_iff_getElem?.mp (List.mem_map_of_mem (f := Prod.snd) known)
      obtain ⟨place, entries, there, refers⟩ := ih entry known own
      exact ⟨position :: place, entries, Value.at?_cons_eq_some.mpr ⟨_, found, there⟩, refers⟩
  | leaf value noList noMap => cases value <;> simp_all [pointers]

theorem becomes_inline {document result : Value} (inlined : inline document = .ok result) :
    Becomes document [] document result := by
  obtain ⟨depth, calls, run, -⟩ := exists_expands_inline document
  exact ⟨depth, calls, inlined ▸ run⟩

/-- Inlining copies all that is no reference, objects with their keys in order. A reference that is left has
its pointer expanded around it, or stands beside one that has, or was made of a reference under `$ref`. With
no pointer that meets itself and nothing under `$ref` that leads to a text, no reference is left. -/
theorem inlining_leaves {document result : Value} (inlined : inline document = .ok result) :
    (∀ {place within origin}, Way document [] document place within origin →
      origin.IsPart document ∧ (pointers origin = [] → result.at? place = some origin) ∧
      ∀ entries, origin = .map entries → reference? entries = none →
        ∃ own, result.at? place = some (.map own) ∧ own.map Prod.fst = entries.map Prod.fst) ∧
    (∀ place entries pointer, result.at? place = some (.map entries) →
      reference? entries = some pointer → Remains document [] document place entries pointer) ∧
    ((∀ pointer ∈ pointers document, ¬MeetsItself document pointer) →
      (∀ own inner text, (Value.map own).IsPart document →
        Value.entry? own (.text "$ref") = some inner → ¬LeadsToText document text inner) →
      pointers result = [] ∧ inline result = .ok result) := by
  have becomes := becomes_inline inlined
  have remains := becomes.handed (handedOn_remains document)
  refine ⟨fun way => ⟨way.isPart .all, fun none => ?_, ?_⟩, remains, fun apart plain => ?_⟩
  · obtain ⟨part, there, inner⟩ := way.exists_part becomes
    rw [there, inner.handed (handedOn_whole document) none]
  · rintro entries rfl noReference
    obtain ⟨part, there, inner⟩ := way.exists_part becomes
    obtain ⟨values, rfl, each⟩ := inner.of_map noReference
    exact ⟨_, there, List.map_fst_zip (by simp [← each.length_eq])⟩
  · have none : pointers result = [] := by
      refine List.eq_nil_iff_forall_not_mem.mpr fun pointer member => ?_
      obtain ⟨place, entries, there, refers⟩ := exists_at?_of_mem_pointers member
      have known {entries : List (Value × Value)} {pointer : String} {place : List Nat}
          {within : List String} (way : Way document [] document place within (.map entries))
          (refers : reference? entries = some pointer) : pointer ∈ pointers document :=
        pointers_subset (way.isPart .all) (mem_pointers_of_reference? refers)
      cases remains place entries pointer there refers with
      | kept way inside => exact apart pointer (known way refers) (way.meetsItself refers inside)
      | beside way refers inside => exact apart _ (known way refers) (way.meetsItself refers inside)
      | made way under leads => exact plain _ _ _ (way.isPart .all) under leads
    exact ⟨none, inline_whole none⟩

def refersTo (pointer : String) : Value := .map [(.text "$ref", .text pointer)]

def tree : Value :=
  .map [(.text "node", .map [(.text "left", refersTo "#/node"), (.text "size", .int 1)]),
    (.text "root", refersTo "#/node")]

def grown : Value :=
  let node (left : Value) : Value := .map [(.text "left", left), (.text "size", .int 1)]
  .map [(.text "node", node (node (refersTo "#/node"))), (.text "root", node (refersTo "#/node"))]

def flat : Value := .map [(.text "one", .int 1), (.text "size", refersTo "#/one")]

theorem not_meetsItself_flat : ¬MeetsItself flat "#/one" := by
  rintro ⟨target, place, within, entries, leads, way, -⟩
  obtain rfl : target = .int 1 := (Except.ok.inj leads).symm
  cases way

theorem not_leadsToText_flat {own : List (Value × Value)} {inner : Value} {text : String}
    (inside : (Value.map own).IsPart flat) (under : Value.entry? own (.text "$ref") = some inner) :
    ¬LeadsToText flat text inner := by
  intro leads
  cases inside with
  | all => cases under
  | entry member inside =>
    rcases List.mem_pair.mp member with rfl | rfl
    · cases inside
    · cases inside with
      | all =>
        cases under
        cases leads
      | entry member inside =>
        obtain rfl := List.mem_singleton.mp member
        cases inside

theorem tree_leaves :
    (inline tree = .ok grown ∧ grown.at? [0, 0, 1] = some (.int 1) ∧
      Remains tree [] tree [0, 0, 0] [(.text "$ref", .text "#/node")] "#/node") ∧
    ∃ result, inline flat = .ok result ∧ pointers result = [] ∧ inline result = .ok result := by
  constructor
  · have inlined : inline tree = .ok grown := rfl
    obtain ⟨copies, remains, -⟩ := inlining_leaves inlined
    refine ⟨inlined, ?_, remains _ _ _ rfl rfl⟩
    exact (copies (.map rfl rfl (.map rfl rfl (.follow rfl (by simp) rfl (.map rfl rfl .here))))).2.1 rfl
  · have inlined : inline flat = .ok (.map [(.text "one", .int 1), (.text "size", .int 1)]) := rfl
    refine ⟨_, inlined, (inlining_leaves inlined).2.2 ?_ fun _ _ _ => not_leadsToText_flat⟩
    intro pointer member
    obtain rfl := List.mem_singleton.mp member
    exact not_meetsItself_flat

def LeavesOwn (document result : Value) : Prop :=
  ∀ place entries pointer, result.at? place = some (.map entries) → reference? entries = some pointer →
    ∃ within, Way document [] document place within (.map entries) ∧ pointer ∈ within

/-- A reference under `$ref` leads to a text. -/
def indirect : Value :=
  .map [(.text "name", .text "#/size"), (.text "size", .int 1),
    (.text "unit", .map [(.text "$ref", refersTo "#/name")])]

def paired : Value :=
  .map [(.text "size", .int 1),
    (.text "unit", .map [(.text "$ref", .text "#/unit"), (.text "base", refersTo "#/size")])]

/-- References are left outside the expansion of their pointers: one that stood nowhere in the document though
no pointer of it meets itself, and one beside a pointer that stays. -/
theorem foreign_references_left :
    (∃ result, inline indirect = .ok result ∧ ¬LeavesOwn indirect result ∧
      (∀ pointer ∈ pointers indirect, ¬MeetsItself indirect pointer) ∧ pointers result ≠ []) ∧
    ∃ result, inline paired = .ok result ∧ ¬LeavesOwn paired result := by
  constructor
  · refine ⟨.map [(.text "name", .text "#/size"), (.text "size", .int 1), (.text "unit", refersTo "#/size")],
      rfl, fun own => ?_, ?_, by decide⟩
    · obtain ⟨within, way, -⟩ := own [2] _ "#/size" rfl rfl
      have refers : reference? [(.text "$ref", .text "#/size")] = some "#/size" := rfl
      have inside := pointers_subset (way.isPart .all) (mem_pointers_of_reference? refers)
      revert inside
      decide
    · rintro pointer member ⟨target, place, within, entries, leads, way, -⟩
      obtain rfl := List.mem_singleton.mp member
      obtain rfl : target = .text "#/size" := (Except.ok.inj leads).symm
      cases way
  · refine ⟨paired, rfl, fun own => ?_⟩
    obtain ⟨within, way, inside⟩ := own [1, 1] _ "#/size" rfl rfl
    cases way with
    | follow refers => cases refers
    | map _ known rest =>
      obtain rfl := Option.some.inj known
      cases rest with
      | map plain => cases plain
      | follow refers _ leads rest =>
        obtain rfl := Option.some.inj refers
        obtain rfl := Except.ok.inj leads
        cases rest with
        | map plain => cases plain
        | follow refers outside =>
          obtain rfl := Option.some.inj refers
          simp at outside

end OpenApi
end ToolGraph
