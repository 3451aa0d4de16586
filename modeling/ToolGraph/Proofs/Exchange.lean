import ToolGraph.Proofs.Entries
import ToolGraph.Proofs.Json.RoundTrip
import ToolGraph.Proofs.Value
import ToolGraph.Value.Exchange

/-!
The form for exchange. It only holds data that it keeps as it is, so what was exchanged once can be
exchanged again without a change.
-/
namespace ToolGraph

/-- Data that every reader of JSON knows: keys are distinct and numbers finite. -/
abbrev Json.Plain (json : Json) : Prop := json.Proper (·.isFinite = true)

namespace Value

theorem ofItems_eq (items : List Json) : ofItems items = items.map ofJson := by
  induction items with
  | nil => rfl
  | cons item items ih => rw [ofItems, ih, List.map_cons]

theorem ofMembers_eq (members : List (String × Json)) :
    ofMembers members = members.map (fun member => (.text member.1, ofJson member.2)) := by
  induction members with
  | nil => rfl
  | cons member members ih => rw [ofMembers, ih, List.map_cons]

theorem entry?_ofMembers (members : List (String × Json)) (name : String) :
    entry? (ofMembers members) (.text name) = (Entries.get? members name).map ofJson := by
  induction members with
  | nil => rfl
  | cons member members ih =>
    obtain ⟨key, json⟩ := member
    rw [ofMembers, entry?_cons, Entries.get?_cons, ih]
    simp only [sameKey_text, text.injEq]
    split <;> rfl

/-! ### What is exchanged -/

mutual

theorem toJson?_plain : ∀ {value : Value} {json : Json}, value.toJson? = some json → json.Plain
  | .null, _, rfl => .null
  | .bool value, _, rfl => .bool value
  | .int value, _, rfl => .int value
  | .float value, _, form => by
    obtain rfl := Option.some.inj form
    split
    next finite => exact .float finite
    next => exact .null
  | .text value, _, rfl => .text value
  | .date value, _, rfl => .text _
  | .dateTime value, _, rfl => .text _
  | .bytes value, _, form => by
    obtain ⟨chars, -, rfl⟩ := Option.map_eq_some_iff.mp form
    exact .text _
  | .pair first second, json, form => by
    rw [toJson?] at form
    split at form
    next one two =>
      obtain rfl := Option.some.inj form
      refine .list fun item member => ?_
      simp only [List.mem_cons, List.not_mem_nil, or_false] at member
      rcases member with rfl | rfl
      · exact toJson?_plain one
      · exact toJson?_plain two
    next => simp at form
  | .list items, _, form => by
    obtain ⟨results, known, rfl⟩ := Option.map_eq_some_iff.mp form
    exact .list (itemsToJson?_plain known)
  | .set items, _, form => by
    obtain ⟨results, known, rfl⟩ := Option.map_eq_some_iff.mp form
    exact .list (itemsToJson?_plain known)
  | .map entries, _, form => by
    obtain ⟨members, known, rfl⟩ := Option.map_eq_some_iff.mp form
    refine .object (Entries.nodup_ofPairs members) fun member present => ?_
    have origin := Entries.mem_of_get?_ofPairs (Entries.get?_of_mem (Entries.nodup_ofPairs members) present)
    exact entriesToJson?_plain known member origin

theorem itemsToJson?_plain : ∀ {items : List Value} {results : List Json},
    itemsToJson? items = some results → ∀ json ∈ results, json.Plain
  | [], _, rfl => fun json member => absurd member List.not_mem_nil
  | item :: items, _, form => by
    rw [itemsToJson?] at form
    split at form
    next first rest =>
      obtain rfl := Option.some.inj form
      intro json member
      rcases List.mem_cons.mp member with rfl | later
      · exact toJson?_plain first
      · exact itemsToJson?_plain rest json later
    next => simp at form

theorem entriesToJson?_plain : ∀ {entries : List (Value × Value)} {members : List (String × Json)},
    entriesToJson? entries = some members → ∀ member ∈ members, member.2.Plain
  | [], _, rfl => fun json member => absurd member List.not_mem_nil
  | (key, value) :: entries, _, form => by
    rw [entriesToJson?] at form
    split at form
    next named first rest =>
      obtain rfl := Option.some.inj form
      intro member known
      rcases List.mem_cons.mp known with rfl | later
      · exact toJson?_plain first
      · exact entriesToJson?_plain rest member later
    next => simp at form

end

theorem toJson?_ofJson {json : Json} (plain : json.Plain) : (ofJson json).toJson? = some json := by
  induction plain with
  | null => rfl
  | bool value => rfl
  | int value => rfl
  | float finite => exact congrArg some (if_pos finite)
  | text value => rfl
  | @list items _ ih =>
    have all : ∀ rest : List Json, (∀ item ∈ rest, item ∈ items) →
        itemsToJson? (ofItems rest) = some rest := by
      intro rest part
      induction rest with
      | nil => rfl
      | cons item rest again =>
        rw [ofItems, itemsToJson?, ih item (part item List.mem_cons_self),
          again fun other member => part other (List.mem_cons_of_mem _ member)]
    exact congrArg (Option.map Json.list) (all items fun _ member => member)
  | @object members distinct _ ih =>
    have all : ∀ rest : List (String × Json), (∀ member ∈ rest, member ∈ members) →
        entriesToJson? (ofMembers rest) = some rest := by
      intro rest part
      induction rest with
      | nil => rfl
      | cons member rest again =>
        rw [ofMembers, entriesToJson?, ih member (part member List.mem_cons_self),
          again fun other known => part other (List.mem_cons_of_mem _ known)]
        rfl
    rw [ofJson, toJson?, all members fun _ member => member, Option.map_some,
      Entries.ofPairs_of_distinct distinct]

mutual

theorem exists_toJson? : ∀ json : Json, ∃ form, (ofJson json).toJson? = some form
  | .null => ⟨_, rfl⟩
  | .bool _ => ⟨_, rfl⟩
  | .int _ => ⟨_, rfl⟩
  | .float _ => ⟨_, rfl⟩
  | .text _ => ⟨_, rfl⟩
  | .list items => by
    obtain ⟨forms, known⟩ := exists_itemsToJson? items
    exact ⟨.list forms, congrArg (Option.map Json.list) known⟩
  | .object members => by
    obtain ⟨forms, known⟩ := exists_entriesToJson? members
    exact ⟨_, congrArg (Option.map fun members => Json.object (Entries.ofPairs members)) known⟩

theorem exists_itemsToJson? : ∀ items : List Json, ∃ forms, itemsToJson? (ofItems items) = some forms
  | [] => ⟨[], rfl⟩
  | item :: items => by
    obtain ⟨form, first⟩ := exists_toJson? item
    obtain ⟨forms, rest⟩ := exists_itemsToJson? items
    exact ⟨form :: forms, by rw [ofItems, itemsToJson?, first, rest]⟩

theorem exists_entriesToJson? : ∀ members : List (String × Json),
    ∃ forms, entriesToJson? (ofMembers members) = some forms
  | [] => ⟨[], rfl⟩
  | (name, value) :: members => by
    obtain ⟨form, first⟩ := exists_toJson? value
    obtain ⟨forms, rest⟩ := exists_entriesToJson? members
    exact ⟨(name, form) :: forms, by rw [ofMembers, entriesToJson?, first, rest]; rfl⟩

end

/-- The data after an exchange; what has no form for it stays. -/
def exchanged (value : Value) : Value := (value.toJson?.map ofJson).getD value

theorem exchanged_of_form {value : Value} {json : Json} (form : value.toJson? = some json) :
    value.exchanged = ofJson json := by
  rw [exchanged, form]
  rfl

theorem toJson?_exchanged (value : Value) : value.exchanged.toJson? = value.toJson? := by
  cases form : value.toJson? with
  | none => rw [exchanged, form, Option.map_none, Option.getD_none, form]
  | some json => rw [exchanged_of_form form, toJson?_ofJson (toJson?_plain form)]

def IsJson (value : Value) : Prop := ∃ json : Json, json.Plain ∧ ofJson json = value

theorem IsJson.exchanged {value : Value} (same : value.IsJson) : value.exchanged = value := by
  obtain ⟨json, plain, rfl⟩ := same
  exact exchanged_of_form (toJson?_ofJson plain)

/-! ### Equality -/

theorem same_self {number : Binary64} (known : number ≠ .nan) : number.same number = true := by
  cases number with
  | nan => exact absurd rfl known
  | infinite negative => simp [Binary64.same]
  | finite negative magnitude => simp [Binary64.same]

theorem IsJson.equals {value : Value} (same : value.IsJson) : value.equals value = true := by
  obtain ⟨json, plain, rfl⟩ := same
  induction plain with
  | null => rfl
  | bool value => exact beq_self_eq_true (if value then (1 : Int) else 0)
  | int value => exact beq_self_eq_true value
  | @float value finite =>
    simp only [ofJson, Value.equals]
    apply same_self
    rintro rfl
    simp [Binary64.isFinite] at finite
  | text value => simp [ofJson, Value.equals, sameKey, number?]
  | @list items _ ih =>
    have all : ∀ rest : List Json, (∀ item ∈ rest, item ∈ items) →
        equalItems (ofItems rest) (ofItems rest) = true := by
      intro rest part
      induction rest with
      | nil => rfl
      | cons item rest again =>
        rw [ofItems, equalItems, ih item (part item List.mem_cons_self),
          again fun other member => part other (List.mem_cons_of_mem _ member)]
        rfl
    simp only [ofJson, Value.equals]
    exact all items fun _ member => member
  | @object members distinct _ ih =>
    have all : ∀ rest : List (String × Json), (∀ member ∈ rest, member ∈ members) →
        equalEntries (ofMembers rest) (ofMembers members) = true := by
      intro rest part
      induction rest with
      | nil => rfl
      | cons member rest again =>
        have known := part member List.mem_cons_self
        have found : Entries.get? members member.1 = some member.2 :=
          Entries.get?_of_mem distinct known
        rw [ofMembers, equalEntries, entry?_ofMembers, found, Option.map_some,
          again fun other known => part other (List.mem_cons_of_mem _ known)]
        simp [ih member known]
    simp only [ofJson, Value.equals, beq_self_eq_true, Bool.true_and]
    exact all members fun _ member => member

/-! ### Tables -/

def ofTable (table : Entries String Value) : Value :=
  .map (table.map (fun entry => (.text entry.1, entry.2)))

theorem ofJson_object (members : List (String × Json)) :
    ofJson (.object members) = ofTable (Entries.mapValues ofJson members) := by
  rw [ofJson, ofMembers_eq, ofTable, Entries.mapValues, List.map_map]
  rfl

theorem ofTable_injective {left right : Entries String Value} (same : ofTable left = ofTable right) :
    left = right := by
  simp only [ofTable, map.injEq] at same
  refine List.map_injective_iff.mpr ?_ same
  rintro ⟨key, value⟩ ⟨other, second⟩ equal
  obtain ⟨keys, rfl⟩ := Prod.mk.inj equal
  exact congrArg (Prod.mk · value) (text.inj keys)

theorem toJson?_ofTable {table : Entries String Value} {json : Json}
    (distinct : (Entries.keys table).Nodup) (form : (ofTable table).toJson? = some json) :
    ∃ members, json = .object members ∧ Entries.keys members = Entries.keys table ∧
      Entries.mapValues ofJson members = Entries.mapValues exchanged table := by
  obtain ⟨members, known, rfl⟩ := Option.map_eq_some_iff.mp form
  have parts : Entries.keys members = Entries.keys table ∧
      Entries.mapValues ofJson members = Entries.mapValues exchanged table := by
    clear distinct form
    induction table generalizing members with
    | nil =>
      obtain rfl := Option.some.inj known
      exact ⟨rfl, rfl⟩
    | cons entry table ih =>
      simp only [List.map_cons] at known
      rw [entriesToJson?] at known
      split at known
      next named first rest =>
        obtain rfl := Option.some.inj known
        obtain rfl := Option.some.inj named
        obtain ⟨keys, values⟩ := ih _ rest
        refine ⟨congrArg (entry.1 :: ·) keys, ?_⟩
        have value := exchanged_of_form first
        simp only [Entries.mapValues, List.map_cons] at values ⊢
        rw [values, value]
        rfl
      next => simp at known
  refine ⟨members, ?_, parts⟩
  rw [Entries.ofPairs_of_distinct (parts.1 ▸ distinct)]

theorem toJson?_ofTable_exchanged (table : Entries String Value) :
    (ofTable (Entries.mapValues exchanged table)).toJson? = (ofTable table).toJson? := by
  have entries : entriesToJson? ((Entries.mapValues exchanged table).map
        (fun entry => (.text entry.1, entry.2))) =
      entriesToJson? (table.map (fun entry => (.text entry.1, entry.2))) := by
    induction table with
    | nil => rfl
    | cons entry table ih =>
      simp only [Entries.mapValues, List.map_cons] at ih ⊢
      rw [entriesToJson?, entriesToJson?, ih, toJson?_exchanged]
  rw [ofTable, ofTable, toJson?, toJson?, entries]

theorem IsJson.table {table : Entries String Value} (same : (ofTable table).IsJson) :
    Entries.mapValues Value.exchanged table = table := by
  obtain ⟨json, plain, known⟩ := same
  cases plain with
  | @object members distinct plain =>
    rw [ofJson_object] at known
    obtain rfl := ofTable_injective known
    rw [Entries.mapValues, Entries.mapValues, List.map_map]
    refine List.map_congr_left fun member present => ?_
    have stays := exchanged_of_form (toJson?_ofJson (plain member present))
    exact congrArg (Prod.mk member.1) stays
  | _ => simp [ofJson, ofTable] at known

end Value
end ToolGraph
