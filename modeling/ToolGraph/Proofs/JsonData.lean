import ToolGraph.Proofs.Exchange
import ToolGraph.Proofs.Hereditary

/-!
Data that is JSON data. Its maps have distinct texts for keys, and its parts are JSON data. It is the only
data that comes back equal from an exchange.
-/
namespace ToolGraph.Value
open Entries

/-! ### Parts -/

theorem isJson_null : IsJson null := ⟨.null, .null, rfl⟩

theorem isJson_text (value : String) : (text value).IsJson := ⟨.text value, .text value, rfl⟩

theorem isJson_list {items : List Value} : (list items).IsJson ↔ ∀ item ∈ items, item.IsJson := by
  constructor
  · rintro ⟨json, plain, same⟩ item member
    cases plain with
    | @list parts plain =>
      simp only [ofJson, list.injEq, ofItems_eq] at same
      obtain ⟨part, known, rfl⟩ := List.mem_map.mp (same ▸ member)
      exact ⟨part, plain part known, rfl⟩
    | _ => simp [ofJson] at same
  · intro each
    obtain ⟨parts, all⟩ := exists_forall₂ each
    have plain : ∀ part ∈ parts, part.Plain := by
      intro part member
      obtain ⟨_, _, known, _⟩ := exists_left_of_forall₂ all member
      exact known
    have same : parts.map ofJson = items := by
      rw [← List.forall₂_eq_eq_eq, List.forall₂_map_left_iff]
      exact all.flip.imp fun part item known => known.2
    exact ⟨.list parts, .list plain, by rw [ofJson, ofItems_eq, same]⟩

theorem exists_ofTable {entries : List (Value × Value)} {names : List String}
    (written : entries.map Prod.fst = names.map .text) :
    ∃ table, map entries = ofTable table ∧ keys table = names := by
  induction entries generalizing names with
  | nil =>
    rw [List.map_eq_nil_iff.mp written.symm]
    exact ⟨[], rfl, rfl⟩
  | cons entry entries ih =>
    obtain ⟨key, value⟩ := entry
    obtain ⟨name, rest, rfl, rfl, others⟩ := List.map_eq_cons_iff.mp written.symm
    obtain ⟨table, same, rfl⟩ := ih others.symm
    obtain rfl := map.inj same
    exact ⟨(name, value) :: table, rfl, rfl⟩

theorem isJson_map {entries : List (Value × Value)} :
    (map entries).IsJson ↔
      (∃ names : List String, names.Nodup ∧ entries.map Prod.fst = names.map .text) ∧
        ∀ entry ∈ entries, entry.2.IsJson := by
  constructor
  · rintro ⟨json, plain, same⟩
    cases plain with
    | @object members distinct plain =>
      simp only [ofJson, ofMembers_eq, map.injEq] at same
      subst same
      refine ⟨⟨keys members, distinct, by simp [keys]⟩, fun entry member => ?_⟩
      obtain ⟨part, known, rfl⟩ := List.mem_map.mp member
      exact ⟨part.2, plain part known, rfl⟩
    | _ => simp [ofJson] at same
  · rintro ⟨⟨names, distinct, written⟩, each⟩
    obtain ⟨table, same, rfl⟩ := exists_ofTable written
    obtain rfl := map.inj same
    have known : ∀ entry ∈ table, ∃ member : String × Json,
        member.2.Plain ∧ (member.1, ofJson member.2) = entry := by
      intro entry known
      obtain ⟨json, plain, same⟩ := each _ (List.mem_map_of_mem known)
      exact ⟨(entry.1, json), plain, congrArg (Prod.mk entry.1) same⟩
    obtain ⟨members, all⟩ := exists_forall₂ known
    have same : mapValues ofJson members = table := by
      rw [mapValues, ← List.forall₂_eq_eq_eq, List.forall₂_map_left_iff]
      exact all.flip.imp fun member entry known => known.2
    refine ⟨.object members, .object ?_ fun member known => ?_, by rw [ofJson_object, same]; rfl⟩
    · rwa [← same, keys_mapValues] at distinct
    · obtain ⟨_, -, plain, -⟩ := exists_left_of_forall₂ all known
      exact plain

theorem isJson_ofTable {table : Entries String Value} :
    (ofTable table).IsJson ↔ (keys table).Nodup ∧ ∀ entry ∈ table, entry.2.IsJson := by
  have written : (table.map (fun entry => (text entry.1, entry.2))).map Prod.fst =
      (keys table).map text := by simp [keys]
  rw [ofTable, isJson_map, List.forall_mem_map]
  refine and_congr_left fun _ => ⟨?_, fun distinct => ⟨keys table, distinct, written⟩⟩
  rintro ⟨names, distinct, same⟩
  have same := List.map_injective_iff.mpr (fun _ _ => text.inj) (written.symm.trans same)
  exact same ▸ distinct

theorem isJson_ofTexts {table : Entries String String} (distinct : (keys table).Nodup) :
    (ofTable (mapValues text table)).IsJson := by
  refine isJson_ofTable.mpr ⟨by rwa [keys_mapValues], fun entry member => ?_⟩
  obtain ⟨own, -, rfl⟩ := List.mem_map.mp member
  exact isJson_text own.2

theorem IsJson.exists_table {entries : List (Value × Value)} (plain : (map entries).IsJson) :
    ∃ table, map entries = ofTable table :=
  have ⟨⟨_, _, written⟩, _⟩ := isJson_map.mp plain
  have ⟨table, same, _⟩ := exists_ofTable written
  ⟨table, same⟩

theorem hereditary_isJson : Hereditary IsJson where
  null := isJson_null
  blank := isJson_map.mpr ⟨⟨[], List.nodup_nil, rfl⟩, by simp⟩
  texts := isJson_text
  list := isJson_list
  values whole := (isJson_map.mp whole).2
  replace whole same values := isJson_map.mpr ⟨same ▸ (isJson_map.mp whole).1, values⟩

/-! ### Entries -/

theorem entry?_rows (table : Entries String Value) (name : String) :
    entry? (table.map (fun entry => (.text entry.1, entry.2))) (.text name) = get? table name := by
  induction table with
  | nil => rfl
  | cons entry table ih =>
    rw [List.map_cons, entry?_cons, get?_cons, ih]
    simp only [sameKey_text, text.injEq]

theorem putEntry_rows (table : Entries String Value) (name : String) (value : Value) :
    map (putEntry (table.map (fun entry => (.text entry.1, entry.2))) (.text name) value) =
      ofTable (put table name value) := by
  rw [ofTable, map.injEq]
  induction table with
  | nil => rfl
  | cons entry table ih =>
    simp only [List.map_cons, putEntry, put, sameKey_text, text.injEq, ih, beq_iff_eq]
    split <;> rfl

theorem IsJson.putEntry {entries : List (Value × Value)} {value : Value}
    (whole : (map entries).IsJson) (name : String) (plain : value.IsJson) :
    (map (Value.putEntry entries (.text name) value)).IsJson := by
  obtain ⟨table, same⟩ := whole.exists_table
  rw [same] at whole
  obtain ⟨distinct, each⟩ := isJson_ofTable.mp whole
  rw [map.inj same, putEntry_rows]
  refine isJson_ofTable.mpr ⟨nodup_put distinct name value, fun entry member => ?_⟩
  rcases mem_put member with rfl | old
  · exact plain
  · exact each entry old

/-! ### Data that comes back equal -/

/-- An entry and its member in an exchange. The value comes back as it was where it comes back equal. -/
structure Exchanges (entry : Value × Value) (member : String × Json) : Prop where
  key : entry.1.keyText? = some member.1
  value : (ofJson member.2).equals entry.2 = true → ofJson member.2 = entry.2

theorem forall_of_equalEntries {members : List (String × Json)} {entries : List (Value × Value)}
    (equal : equalEntries (ofMembers members) entries = true) : ∀ member ∈ members,
      ∃ other, entry? entries (.text member.1) = some other ∧ (ofJson member.2).equals other = true := by
  induction members with
  | nil => simp
  | cons member members ih =>
    rw [ofMembers, equalEntries, Bool.and_eq_true] at equal
    refine List.forall_mem_cons.mpr ⟨?_, ih equal.2⟩
    cases found : entry? entries (.text member.1) with
    | none => simp [found] at equal
    | some other => exact ⟨other, rfl, by simpa [found] using equal.1⟩

/-- A map that comes back equal has distinct texts for keys: an exchange makes texts of all keys, and
there are as many as before. -/
theorem keys_of_equal {entries : List (Value × Value)} {members : List (String × Json)}
    (each : List.Forall₂ Exchanges entries members)
    (equal : (ofJson (.object (ofPairs members))).equals (map entries) = true) :
    (keys members).Nodup ∧ entries.map Prod.fst = (keys members).map text := by
  simp only [ofJson, equals, Bool.and_eq_true, beq_iff_eq, ofMembers_eq, List.length_map] at equal
  obtain ⟨length, equal⟩ := equal
  rw [← ofMembers_eq] at equal
  have known : (keys (ofPairs members)).map text ⊆ entries.map Prod.fst := by
    rw [keys, List.map_map]
    intro key named
    obtain ⟨member, present, rfl⟩ := List.mem_map.mp named
    obtain ⟨other, found, -⟩ := forall_of_equalEntries equal member present
    obtain ⟨entry, first, -⟩ := Option.map_eq_some_iff.mp found
    have same : entry.1 = text member.1 := sameKey_text.mp (by simpa using List.find?_some first)
    rw [Function.comp_apply, ← same]
    exact List.mem_map_of_mem (List.mem_of_find?_eq_some first)
  have distinct : ((keys (ofPairs members)).map text).Nodup :=
    (nodup_ofPairs members).map fun _ _ => text.inj
  have perm : ((keys (ofPairs members)).map text).Perm (entries.map Prod.fst) :=
    (List.subperm_of_subset distinct known).perm_of_length_le (by simp [keys, length])
  have written : entries.map Prod.fst = (keys members).map text := by
    rw [keys, List.map_map, ← List.forall₂_eq_eq_eq, List.forall₂_map_left_iff,
      List.forall₂_map_right_iff]
    refine forall₂_of_mem each fun entry present member _ exchanges => ?_
    obtain ⟨name, -, same⟩ := List.mem_map.mp (perm.mem_iff.mpr (List.mem_map_of_mem present))
    have key := exchanges.key
    rw [← same] at key ⊢
    exact congrArg text (Option.some.inj key)
  refine ⟨?_, written⟩
  exact List.Nodup.of_map _ (written ▸ perm.nodup distinct)

theorem ofMembers_of_equal {entries : List (Value × Value)} {members : List (String × Json)}
    (each : List.Forall₂ Exchanges entries members)
    (equal : (ofJson (.object (ofPairs members))).equals (map entries) = true) :
    ofJson (.object (ofPairs members)) = map entries := by
  obtain ⟨distinct, written⟩ := keys_of_equal each equal
  rw [ofPairs_of_distinct distinct] at equal ⊢
  simp only [ofJson, equals, Bool.and_eq_true] at equal
  have values := forall_of_equalEntries equal.2
  obtain ⟨table, same, names⟩ := exists_ofTable written
  obtain rfl := map.inj same
  rw [ofJson_object]
  have pairs := List.forall₂_map_left_iff.mp each
  have back : List.Forall₂ (fun member entry => (member.1, ofJson member.2) = entry) members table := by
    refine forall₂_of_mem pairs.flip fun member present entry known exchanges => ?_
    obtain ⟨other, found, equal⟩ := values member present
    have key : entry.1 = member.1 := Option.some.inj exchanges.key
    rw [entry?_rows, ← key, get?_of_mem (names ▸ distinct) known] at found
    obtain rfl := Option.some.inj found
    rw [exchanges.value equal, ← key]
  rw [← List.forall₂_map_left_iff, List.forall₂_eq_eq_eq] at back
  exact congrArg ofTable back

mutual

theorem ofJson_of_equals : ∀ {value : Value} {json : Json}, value.toJson? = some json →
    (ofJson json).equals value = true → ofJson json = value
  | .null, _, rfl, _ => rfl
  | .bool value, _, rfl, _ => rfl
  | .int value, _, rfl, _ => rfl
  | .text value, _, rfl, _ => rfl
  | .float value, _, form, equal => by
    obtain rfl := Option.some.inj form
    split
    next => rfl
    next infinite =>
      cases whole : value.toInt? <;> simp [ofJson, equals, sameKey, number?, infinite, whole] at equal
  | .date value, _, rfl, equal => by simp [ofJson, equals, sameKey, number?] at equal
  | .dateTime value, _, rfl, equal => by simp [ofJson, equals, sameKey, number?] at equal
  | .bytes value, _, form, equal => by
    obtain ⟨chars, -, rfl⟩ := Option.map_eq_some_iff.mp form
    simp [ofJson, equals, sameKey, number?] at equal
  | .pair first second, json, form, equal => by
    rw [toJson?] at form
    split at form
    next => 
      obtain rfl := Option.some.inj form
      simp [ofJson, equals, sameKey, number?] at equal
    next => simp at form
  | .list items, _, form, equal => by
    obtain ⟨results, known, rfl⟩ := Option.map_eq_some_iff.mp form
    rw [ofJson, equals] at equal
    exact congrArg list (ofItems_of_equal known equal)
  | .set items, _, form, equal => by
    obtain ⟨results, known, rfl⟩ := Option.map_eq_some_iff.mp form
    simp [ofJson, equals, sameKey, number?] at equal
  | .map entries, _, form, equal => by
    obtain ⟨members, known, rfl⟩ := Option.map_eq_some_iff.mp form
    exact ofMembers_of_equal (entries_of_equal known) equal

theorem ofItems_of_equal : ∀ {items : List Value} {results : List Json},
    itemsToJson? items = some results → equalItems (ofItems results) items = true →
      ofItems results = items
  | [], _, rfl, _ => rfl
  | item :: items, _, form, equal => by
    rw [itemsToJson?] at form
    split at form
    next first rest =>
      obtain rfl := Option.some.inj form
      simp only [ofItems, equalItems, Bool.and_eq_true] at equal
      rw [ofItems, ofJson_of_equals first equal.1, ofItems_of_equal rest equal.2]
    next => simp at form

theorem entries_of_equal : ∀ {entries : List (Value × Value)} {members : List (String × Json)},
    entriesToJson? entries = some members → List.Forall₂ Exchanges entries members
  | [], _, rfl => .nil
  | (key, value) :: entries, _, form => by
    rw [entriesToJson?] at form
    split at form
    next named first rest =>
      obtain rfl := Option.some.inj form
      exact .cons ⟨named, ofJson_of_equals first⟩ (entries_of_equal rest)
    next => simp at form

end

theorem equals_exchanged_iff {value : Value} {json : Json} (form : value.toJson? = some json) :
    (ofJson json).equals value = true ↔ value.IsJson := by
  constructor
  · intro equal
    exact ⟨json, toJson?_plain form, ofJson_of_equals form equal⟩
  · intro plain
    have same := exchanged_of_form form
    rw [plain.exchanged] at same
    exact same ▸ plain.equals

end ToolGraph.Value
