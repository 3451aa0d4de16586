import ToolGraph.Proofs.Exchange

/-!
Data that can be written: it has no more levels than are written, and all bytes and keys in it have an
encoding. An exchange leaves it writable.
-/
namespace ToolGraph.Value

/-! ### What can be written -/

mutual

/-- The levels of data: those of the deepest part, and one. -/
def levels : Value → Nat
  | .pair first second => max first.levels second.levels + 1
  | .list items => itemsLevels items + 1
  | .set items => itemsLevels items + 1
  | .map entries => entriesLevels entries + 1
  | _ => 1

def itemsLevels : List Value → Nat
  | [] => 0
  | item :: items => max item.levels (itemsLevels items)

def entriesLevels : List (Value × Value) → Nat
  | [] => 0
  | (_, value) :: entries => max value.levels (entriesLevels entries)

end

mutual

/-- All bytes in data are texts, and all keys have an encoding. -/
def IsEncodable : Value → Prop
  | .bytes value => (Text.decode? value).isSome
  | .pair first second => first.IsEncodable ∧ second.IsEncodable
  | .list items => AreEncodable items
  | .set items => AreEncodable items
  | .map entries => EntriesEncodable entries
  | _ => True

def AreEncodable : List Value → Prop
  | [] => True
  | item :: items => item.IsEncodable ∧ AreEncodable items

def EntriesEncodable : List (Value × Value) → Prop
  | [] => True
  | (key, value) :: entries =>
    (key.keyFault? = none ∧ value.IsEncodable) ∧ EntriesEncodable entries

end

theorem levels_pos (value : Value) : 0 < value.levels := by
  cases value <;> simp [Value.levels]

theorem fault?_zero (value : Value) : value.fault? 0 = some .tooDeep := by
  cases value <;> rfl

mutual

theorem fault?_eq_none : ∀ {levels : Nat} {value : Value},
    value.fault? levels = none ↔ value.levels ≤ levels ∧ value.IsEncodable
  | 0, value => by
    have own := levels_pos value
    simp only [fault?_zero, reduceCtorEq, false_iff]
    omega
  | levels + 1, .pair first second => by
    simp only [fault?, Option.or_eq_none_iff, Value.levels, IsEncodable, Nat.add_le_add_iff_right,
      Nat.max_le]
    rw [fault?_eq_none, fault?_eq_none]
    exact and_and_and_comm
  | levels + 1, .list items => by
    simp only [fault?, Value.levels, IsEncodable, Nat.add_le_add_iff_right]
    exact itemsFault?_eq_none
  | levels + 1, .set items => by
    simp only [fault?, Value.levels, IsEncodable, Nat.add_le_add_iff_right]
    exact itemsFault?_eq_none
  | levels + 1, .map entries => by
    simp only [fault?, Value.levels, IsEncodable, Nat.add_le_add_iff_right]
    exact entriesFault?_eq_none
  | levels + 1, .bytes value => by
    simp [fault?, Value.levels, IsEncodable, Option.isSome_iff_ne_none]
  | _ + 1, .null | _ + 1, .bool _ | _ + 1, .int _ | _ + 1, .float _ | _ + 1, .text _ | _ + 1, .date _
  | _ + 1, .dateTime _ => by simp [fault?, Value.levels, IsEncodable]

theorem itemsFault?_eq_none : ∀ {levels : Nat} {items : List Value},
    itemsFault? levels items = none ↔ itemsLevels items ≤ levels ∧ AreEncodable items
  | _, [] => by simp [itemsFault?, itemsLevels, AreEncodable]
  | levels, item :: items => by
    simp only [itemsFault?, Option.or_eq_none_iff, itemsLevels, AreEncodable, Nat.max_le]
    rw [fault?_eq_none, itemsFault?_eq_none]
    exact and_and_and_comm

theorem entriesFault?_eq_none : ∀ {levels : Nat} {entries : List (Value × Value)},
    entriesFault? levels entries = none ↔ entriesLevels entries ≤ levels ∧ EntriesEncodable entries
  | _, [] => by simp [entriesFault?, entriesLevels, EntriesEncodable]
  | levels, (key, value) :: entries => by
    simp only [entriesFault?, Option.or_eq_none_iff, entriesLevels, EntriesEncodable, Nat.max_le]
    rw [fault?_eq_none, entriesFault?_eq_none]
    exact ⟨fun ⟨⟨key, deep, value⟩, more, others⟩ => ⟨⟨deep, more⟩, ⟨key, value⟩, others⟩,
      fun ⟨⟨deep, more⟩, ⟨key, value⟩, others⟩ => ⟨⟨key, deep, value⟩, more, others⟩⟩

end

theorem not_isEncodable_of_fault {levels : Nat} {value : Value} {fault : Fault}
    (found : value.fault? levels = some fault) (shallow : value.levels ≤ levels) :
    ¬ value.IsEncodable := by
  intro encodable
  rw [fault?_eq_none.mpr ⟨shallow, encodable⟩] at found
  cases found

mutual

theorem fault_of_json : ∀ {levels : Nat} {json : Json} {fault : Fault},
    (ofJson json).fault? levels = some fault → fault = .tooDeep ∨ fault = .foreignKey
  | 0, json, _, found => by
    rw [fault?_zero] at found
    exact .inl (Option.some.inj found).symm
  | _ + 1, .list _, _, found => fault_of_items found
  | _ + 1, .object _, _, found => fault_of_members found
  | _ + 1, .null, _, found | _ + 1, .bool _, _, found | _ + 1, .int _, _, found
  | _ + 1, .float _, _, found | _ + 1, .text _, _, found => nomatch found

theorem fault_of_items : ∀ {levels : Nat} {items : List Json} {fault : Fault},
    itemsFault? levels (ofItems items) = some fault → fault = .tooDeep ∨ fault = .foreignKey
  | _, [], _, found => nomatch found
  | levels, item :: items, _, found => by
    rw [ofItems, itemsFault?, Option.or_eq_some_iff] at found
    rcases found with own | ⟨-, others⟩
    · exact fault_of_json own
    · exact fault_of_items others

theorem fault_of_members : ∀ {levels : Nat} {members : List (String × Json)} {fault : Fault},
    entriesFault? levels (ofMembers members) = some fault → fault = .tooDeep ∨ fault = .foreignKey
  | _, [], _, found => nomatch found
  | levels, (name, value) :: members, _, found => by
    rw [ofMembers, entriesFault?, Option.or_eq_some_iff, Option.or_eq_some_iff] at found
    rcases found with (key | ⟨-, own⟩) | ⟨-, others⟩
    · have known : keyFault? (.text name) = if Text.isEncodable name then none else some .foreignKey := rfl
      rw [known] at key
      split at key
      next => cases key
      next => exact .inr (Option.some.inj key).symm
    · exact fault_of_json own
    · exact fault_of_members others

end

/-! ### Data that is written -/

theorem fault?_of_items {levels : Nat} {items : List Json} (each : ∀ item ∈ items,
    (ofJson item).fault? levels = none) : (ofJson (.list items)).fault? (levels + 1) = none := by
  rw [ofJson, fault?, ofItems_eq]
  induction items with
  | nil => rfl
  | cons item items ih =>
    obtain ⟨first, others⟩ := List.forall_mem_cons.mp each
    rw [List.map_cons, itemsFault?, first, ih others]
    rfl

theorem fault?_of_members {levels : Nat} {members : List (String × Json)}
    (each : ∀ member ∈ members, Text.isEncodable member.1 = true ∧
      (ofJson member.2).fault? levels = none) :
    (ofJson (.object members)).fault? (levels + 1) = none := by
  rw [ofJson, fault?, ofMembers_eq]
  induction members with
  | nil => rfl
  | cons member members ih =>
    obtain ⟨⟨name, value⟩, others⟩ := List.forall_mem_cons.mp each
    have key : (text member.1).keyFault? = none := if_pos name
    rw [List.map_cons, entriesFault?, key, value, ih others]
    rfl

mutual

theorem exists_form : ∀ {levels : Nat} {value : Value}, value.fault? levels = none →
    ∃ json, value.toJson? = some json ∧ (ofJson json).fault? levels = none
  | 0, value, written => by simp [fault?_zero] at written
  | levels + 1, .pair first second, written => by
    simp only [fault?, Option.or_eq_none_iff] at written
    obtain ⟨one, form, known⟩ := exists_form written.1
    obtain ⟨two, form', known'⟩ := exists_form written.2
    refine ⟨.list [one, two], by rw [toJson?, form, form'], fault?_of_items ?_⟩
    simpa using ⟨known, known'⟩
  | levels + 1, .list items, written => by
    rw [fault?] at written
    obtain ⟨forms, known, each⟩ := exists_itemForms written
    exact ⟨.list forms, congrArg (Option.map Json.list) known, fault?_of_items each⟩
  | levels + 1, .set items, written => by
    rw [fault?] at written
    obtain ⟨forms, known, each⟩ := exists_itemForms written
    exact ⟨.list forms, congrArg (Option.map Json.list) known, fault?_of_items each⟩
  | levels + 1, .map entries, written => by
    rw [fault?] at written
    obtain ⟨members, known, each⟩ := exists_entryForms written
    refine ⟨_, congrArg (Option.map fun members => Json.object (Entries.ofPairs members)) known,
      fault?_of_members fun member present => ?_⟩
    have distinct := Entries.nodup_ofPairs members
    exact each member (Entries.mem_of_get?_ofPairs (Entries.get?_of_mem distinct present))
  | levels + 1, .bytes value, written => by
    cases known : Text.decode? value with
    | none => simp [fault?, known] at written
    | some chars => exact ⟨.text (String.ofList chars), by simp [toJson?, known], rfl⟩
  | levels + 1, .float value, _ => by
    refine ⟨_, rfl, ?_⟩
    split <;> rfl
  | _ + 1, .null, _ | _ + 1, .bool _, _ | _ + 1, .int _, _ | _ + 1, .text _, _ | _ + 1, .date _, _
  | _ + 1, .dateTime _, _ => ⟨_, rfl, rfl⟩

theorem exists_itemForms : ∀ {levels : Nat} {items : List Value}, itemsFault? levels items = none →
    ∃ forms, itemsToJson? items = some forms ∧ ∀ form ∈ forms, (ofJson form).fault? levels = none
  | _, [], _ => ⟨[], rfl, by simp⟩
  | levels, item :: items, written => by
    simp only [itemsFault?, Option.or_eq_none_iff] at written
    obtain ⟨form, known, own⟩ := exists_form written.1
    obtain ⟨forms, rest, others⟩ := exists_itemForms written.2
    exact ⟨form :: forms, by rw [itemsToJson?, known, rest], List.forall_mem_cons.mpr ⟨own, others⟩⟩

theorem exists_entryForms : ∀ {levels : Nat} {entries : List (Value × Value)},
    entriesFault? levels entries = none → ∃ members, entriesToJson? entries = some members ∧
      ∀ member ∈ members, Text.isEncodable member.1 = true ∧ (ofJson member.2).fault? levels = none
  | _, [], _ => ⟨[], rfl, by simp⟩
  | levels, (key, value) :: entries, written => by
    simp only [entriesFault?, Option.or_eq_none_iff] at written
    obtain ⟨⟨named, first⟩, rest⟩ := written
    obtain ⟨form, known, own⟩ := exists_form first
    obtain ⟨members, more, others⟩ := exists_entryForms rest
    unfold keyFault? at named
    split at named
    next => cases named
    next name spelt =>
      split at named
      next encodable =>
        exact ⟨(name, form) :: members, by rw [entriesToJson?, spelt, known, more],
          List.forall_mem_cons.mpr ⟨⟨encodable, own⟩, others⟩⟩
      next => cases named

end

theorem fault?_exchanged {levels : Nat} {value : Value} (written : value.fault? levels = none) :
    value.exchanged.fault? levels = none := by
  obtain ⟨json, form, known⟩ := exists_form written
  rw [exchanged_of_form form]
  exact known

theorem exists_form_of_table {levels : Nat} {table : Entries String Value}
    (each : ∀ entry ∈ table, entry.2.fault? levels = none) :
    ∃ json, (ofTable table).toJson? = some json := by
  have members : ∃ members,
      entriesToJson? (table.map fun entry => (.text entry.1, entry.2)) = some members := by
    induction table with
    | nil => exact ⟨[], rfl⟩
    | cons entry table ih =>
      obtain ⟨first, others⟩ := List.forall_mem_cons.mp each
      obtain ⟨json, form, -⟩ := exists_form first
      obtain ⟨members, rest⟩ := ih others
      exact ⟨(entry.1, json) :: members, by rw [List.map_cons, entriesToJson?, form, rest]; rfl⟩
  obtain ⟨members, known⟩ := members
  exact ⟨_, congrArg (Option.map fun members => Json.object (Entries.ofPairs members)) known⟩

end ToolGraph.Value
