import ToolGraph.OpenApi.Server
import ToolGraph.Proofs.Pointer

/-!
What a pointer leads to, and why one is refused. RFC 6901 has a single form for a position in a list.
Other texts are read as numbers as well, and numbers count from the end of a list, so that some pointers
that name nothing are not refused but lead to data.
-/
namespace ToolGraph.Pointer
open Text Number OpenApi

/-! ### Ways along segments -/

/-- The data that a segment names in a list: that at the index. An index is zero, or digits without a
zero in front. -/
def Indexes (segment : String) (items : List Value) (inner : Value) : Prop :=
  Json.IsWhole segment.toList ∧ items[digitsValue segment.toList]? = some inner

/-- The data at a number in a list. The number counts from the start or, if negative, from the end. -/
def Counts (segment : String) (items : List Value) (inner : Value) : Prop :=
  ∃ number, IsNumeral segment.toList number ∧ ∃ place : Nat, items[place]? = some inner ∧
    (number = place ∨ number = place - items.length)

/-- The data at the end of segments: through objects by their keys, and through lists by what `names`
says. -/
inductive Leads (names : String → List Value → Value → Prop) :
    Value → List String → Value → Prop where
  | here {value : Value} : Leads names value [] value
  | key {entries : List (Value × Value)} {segment : String} {segments : List String}
      {inner value : Value} (present : Value.entry? entries (.text segment) = some inner)
      (rest : Leads names inner segments value) : Leads names (.map entries) (segment :: segments) value
  | item {items : List Value} {segment : String} {segments : List String} {inner value : Value}
      (named : names segment items inner) (rest : Leads names inner segments value) :
      Leads names (.list items) (segment :: segments) value

/-- On the way along segments a list is entered by a number that is no index. -/
inductive Strays : Value → List String → Prop where
  | here {items : List Value} {segment : String} {segments : List String} {inner : Value}
      (counted : Counts segment items inner) (other : ¬ Json.IsWhole segment.toList) :
      Strays (.list items) (segment :: segments)
  | key {entries : List (Value × Value)} {segment : String} {segments : List String} {inner : Value}
      (present : Value.entry? entries (.text segment) = some inner) (rest : Strays inner segments) :
      Strays (.map entries) (segment :: segments)
  | item {items : List Value} {segment : String} {segments : List String} {inner : Value}
      (counted : Counts segment items inner) (rest : Strays inner segments) :
      Strays (.list items) (segment :: segments)

/-- Why there is no way from data along a segment. -/
inductive Blocked (pointer segment : String) : Value → ConversionFault → Prop where
  | key {entries : List (Value × Value)} (absent : Value.entry? entries (.text segment) = none) :
      Blocked pointer segment (.map entries) (.keyNotFound pointer segment)
  | word {items : List Value} (other : ∀ number, ¬ IsNumeral segment.toList number) :
      Blocked pointer segment (.list items) (.badIndex pointer segment false)
  | beyond {items : List Value} {number : Int} (numeral : IsNumeral segment.toList number)
      (outside : number < -items.length ∨ items.length ≤ number) :
      Blocked pointer segment (.list items) (.badIndex pointer segment true)
  | leaf {value : Value} (noList : ∀ items, value ≠ .list items)
      (noMap : ∀ entries, value ≠ .map entries) :
      Blocked pointer segment value (.noWay pointer value.kindName)

inductive Refused (root : Value) (pointer : String) : ConversionFault → Prop where
  | outward (other : ¬ "#/".toList <+: pointer.toList) : Refused root pointer (.externalPointer pointer)
  | stopped {front back : List String} {segment : String} {value : Value} {fault : ConversionFault}
      (reads : Reads pointer (front ++ segment :: back)) (leads : Leads Counts root front value)
      (blocked : Blocked pointer segment value fault) : Refused root pointer fault

/-! ### Steps -/

section steps
variable {pointer segment : String} {segments : List String} {items : List Value} {value inner : Value}
  {fault : ConversionFault}

theorem counts_iff : Counts segment items inner ↔
    ∃ number, readInt? segment.toList = some number ∧ itemAt? items number = some inner := by
  simp only [Counts, readInt?_eq_some, itemAt?_eq_some]

theorem Counts.indexes (counted : Counts segment items inner) (whole : Json.IsWhole segment.toList) :
    Indexes segment items inner := by
  obtain ⟨number, read, found⟩ := counts_iff.mp counted
  obtain ⟨-, rfl⟩ := (readInt?_digits whole.all whole.ne_nil).mp read
  exact ⟨whole, by rwa [itemAt?_natCast] at found⟩

theorem step_eq_error :
    step pointer value segment = .error fault ↔ Blocked pointer segment value fault := by
  constructor
  · intro failed
    unfold step at failed
    split at failed
    next entries =>
      split at failed
      next => cases failed
      next absent => exact Except.error.inj failed ▸ .key absent
    next items =>
      split at failed
      next unread =>
        refine Except.error.inj failed ▸ .word fun number numeral => ?_
        rw [readInt?_eq_some.mpr numeral] at unread
        cases unread
      next number read =>
        split at failed
        next => cases failed
        next none =>
          exact Except.error.inj failed ▸ .beyond (readInt?_eq_some.mp read) (itemAt?_eq_none.mp none)
    next noMap noList => exact Except.error.inj failed ▸ .leaf noList noMap
  · intro blocked
    cases blocked with
    | key absent => simp only [step, absent]
    | word other =>
      have unread := Option.eq_none_iff_forall_ne_some.mpr fun number read =>
        other number (readInt?_eq_some.mp read)
      simp only [step, unread]
    | beyond numeral outside =>
      simp only [step, readInt?_eq_some.mpr numeral, itemAt?_eq_none.mpr outside]
    | leaf noList noMap =>
      unfold step
      split
      · exact absurd rfl (noMap _)
      · exact absurd rfl (noList _)
      · rfl

theorem foldlM_eq_ok (pointer : String) :
    segments.foldlM (step pointer) value = .ok inner ↔ Leads Counts value segments inner := by
  induction segments generalizing value with
  | nil =>
    constructor
    · intro done
      obtain rfl := pure_eq_ok.mp done
      exact .here
    · rintro ⟨⟩
      rfl
  | cons segment segments ih =>
    rw [List.foldlM_cons, bind_eq_ok]
    constructor
    · rintro ⟨next, stepped, rest⟩
      cases value with
      | map entries => exact .key (step_map_eq_ok.mp stepped) (ih.mp rest)
      | list items => exact .item (counts_iff.mpr (step_list_eq_ok.mp stepped)) (ih.mp rest)
      | _ => cases stepped
    · intro leads
      cases leads with
      | key present rest => exact ⟨_, step_map_eq_ok.mpr present, ih.mpr rest⟩
      | item named rest => exact ⟨_, step_list_eq_ok.mpr (counts_iff.mp named), ih.mpr rest⟩

end steps

/-! ### Pointers -/

section pointers
variable {root value : Value} {pointer : String} {segments : List String} {fault : ConversionFault}

theorem segments?_eq_none : segments? pointer = none ↔ ¬ "#/".toList <+: pointer.toList := by
  unfold segments?
  split
  next rest start =>
    rw [start]
    exact iff_of_false nofun fun other => other ⟨rest, rfl⟩
  next other =>
    refine iff_of_true rfl ?_
    rintro ⟨rest, start⟩
    exact other rest start.symm

theorem follow_eq_ok : follow root pointer = .ok value ↔
    ∃ segments, Reads pointer segments ∧ Leads Counts root segments value := by
  simp only [← segments?_eq_some, ← foldlM_eq_ok pointer, follow]
  cases segments? pointer <;> simp

theorem follow_eq_error : follow root pointer = .error fault ↔ Refused root pointer fault := by
  constructor
  · intro failed
    unfold follow at failed
    split at failed
    next outward => exact Except.error.inj failed ▸ .outward (segments?_eq_none.mp outward)
    next segments read =>
      obtain ⟨front, segment, back, middle, rfl, fine, blocked⟩ := foldlM_eq_error.mp failed
      exact .stopped (segments?_eq_some.mp read) ((foldlM_eq_ok pointer).mp fine) (step_eq_error.mp blocked)
  · intro refused
    cases refused with
    | outward other => rw [follow, segments?_eq_none.mpr other]
    | stopped reads leads blocked =>
      rw [follow, segments?_eq_some.mpr reads]
      exact foldlM_eq_error.mpr
        ⟨_, _, _, _, rfl, (foldlM_eq_ok pointer).mpr leads, step_eq_error.mpr blocked⟩

theorem Strays.not_leads (strays : Strays root segments) : ¬ Leads Indexes root segments value := by
  induction strays with
  | here counted other =>
    rintro (_ | _ | ⟨⟨whole, -⟩, -⟩)
    exact other whole
  | key present _ ih =>
    intro leads
    cases leads with
    | key present' rest =>
      obtain rfl := Option.some.inj (present.symm.trans present')
      exact ih rest
  | item counted _ ih =>
    intro leads
    cases leads with
    | item named rest =>
      obtain ⟨whole, found⟩ := named
      obtain rfl := Option.some.inj ((counted.indexes whole).2.symm.trans found)
      exact ih rest

theorem Leads.indexes (leads : Leads Counts root segments value) (straight : ¬ Strays root segments) :
    Leads Indexes root segments value := by
  induction leads with
  | here => exact .here
  | key present _ ih => exact .key present (ih fun strays => straight (.key present strays))
  | @item _ segment _ _ _ counted _ ih =>
    -- A number that is no index would be a stray step right here.
    by_cases whole : Json.IsWhole segment.toList
    · exact .item (counted.indexes whole) (ih fun strays => straight (.item counted strays))
    · exact absurd (.here counted whole) straight

end pointers

/-- A pointer leads to data exactly along keys and numbers, and every other one is refused with the first
thing that is wrong with it. Where no list is entered by a number that is no index, it leads to nothing
but what RFC 6901 says; where one is, that leads nowhere. -/
theorem pointers_refused (root : Value) (pointer location : String) :
    (∀ value, refused location (follow root pointer) = .ok value ↔
      ∃ segments, Reads pointer segments ∧ Leads Counts root segments value) ∧
    (∀ error, refused location (follow root pointer) = .error error ↔
      ∃ fault, Refused root pointer fault ∧ error = .conversion location fault) ∧
    ∀ segments, Reads pointer segments →
      (¬ Strays root segments → ∀ value, refused location (follow root pointer) = .ok value →
        Leads Indexes root segments value) ∧
      (Strays root segments → ∀ value, ¬ Leads Indexes root segments value) := by
  have accepted (value : Value) : refused location (follow root pointer) = .ok value ↔
      ∃ segments, Reads pointer segments ∧ Leads Counts root segments value :=
    mapError_eq_ok.trans follow_eq_ok
  refine ⟨accepted, fun error => ?_,
    fun segments reads => ⟨fun straight value done => ?_, fun strays value => ?_⟩⟩
  · rw [refused, mapError_eq_error]
    simp only [follow_eq_error]
  · obtain ⟨again, reads', leads⟩ := (accepted value).mp done
    obtain rfl := Option.some.inj
      ((segments?_eq_some.mpr reads).symm.trans (segments?_eq_some.mpr reads'))
    exact leads.indexes straight
  · exact strays.not_leads

def larder : Value := .map [(.text "jars", .list [.text "plum", .text "pear"])]

/-- The last jar is found from the end, where RFC 6901 has none; there is no third one. -/
theorem larder_pointers :
    (refused "larder.yaml" (follow larder "#/jars/-1") = .ok (.text "pear") ∧
      ∀ value, ¬ Leads Indexes larder ["jars", "-1"] value) ∧
    Leads Indexes larder ["jars", "1"] (.text "pear") ∧
    Refused larder "#/jars/2" (.badIndex "#/jars/2" "2" true) := by
  have counted : Counts "-1" [.text "plum", .text "pear"] (.text "pear") := counts_iff.mpr ⟨-1, rfl, rfl⟩
  have signed : ¬ Json.IsWhole "-1".toList := fun whole => absurd (whole.all '-' (by decide)) (by decide)
  have straight : ¬ Strays larder ["jars", "1"] := by
    intro strays
    cases strays with
    | key present rest =>
      obtain rfl := Option.some.inj present
      cases rest with
      | here _ other => exact other (Json.isWhole_toDigits 1)
      | item _ rest => cases rest
  refine ⟨⟨rfl, ?_⟩, ?_, ?_⟩
  · exact ((pointers_refused larder "#/jars/-1" "larder.yaml").2.2 _ (segments?_eq_some.mp rfl)).2
      (.key rfl (.here counted signed))
  · exact ((pointers_refused larder "#/jars/1" "larder.yaml").2.2 _ (segments?_eq_some.mp rfl)).1
      straight _ rfl
  · obtain ⟨fault, refused, same⟩ := ((pointers_refused larder "#/jars/2" "larder.yaml").2.1 _).mp rfl
    cases same
    exact refused

end ToolGraph.Pointer
