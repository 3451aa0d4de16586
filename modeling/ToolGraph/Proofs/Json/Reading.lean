import ToolGraph.Proofs.Json.RoundTrip
import ToolGraph.Proofs.Lists

/-!
What is read of a text as JSON, step by step. An object has every key once, whatever is written: of a key
that is written more than once the last value counts.
-/
namespace ToolGraph.Json

/-! ### Steps of the reader -/

section steps
variable {steps : Nat} {text rest : List Char} {json : Json} {items : List Json}
  {members : List (String × Json)}

inductive ReadsValue (steps : Nat) : List Char → Json → List Char → Prop
  | scalar {text rest : List Char} {json : Json} (read : readScalar text = .ok (json, rest)) :
      ReadsValue steps text json rest
  | emptyList {inner rest : List Char} (close : skipSpaces inner = ']' :: rest) :
      ReadsValue steps ('[' :: inner) (.list []) rest
  | list {inner rest : List Char} {items : List Json}
      (read : readItems steps (skipSpaces inner) = .ok (items, rest)) :
      ReadsValue steps ('[' :: inner) (.list items) rest
  | emptyObject {inner rest : List Char} (close : skipSpaces inner = '\x7d' :: rest) :
      ReadsValue steps ('\x7b' :: inner) (.object []) rest
  | object {inner rest : List Char} {members : List (String × Json)}
      (read : readMembers steps (skipSpaces inner) = .ok (members, rest)) :
      ReadsValue steps ('\x7b' :: inner) (.object (Entries.ofPairs members)) rest

/-- How items are read: the first one, and after it the end or the others. -/
inductive ReadsItems (steps : Nat) (text : List Char) : List Json → List Char → Prop
  | last {item : Json} {later rest : List Char} (first : readValue steps text = .ok (item, later))
      (close : skipSpaces later = ']' :: rest) : ReadsItems steps text [item] rest
  | more {item : Json} {items : List Json} {later inner rest : List Char}
      (first : readValue steps text = .ok (item, later)) (comma : skipSpaces later = ',' :: inner)
      (others : readItems steps (skipSpaces inner) = .ok (items, rest)) :
      ReadsItems steps text (item :: items) rest

inductive ReadsMember (steps : Nat) : List Char → String × Json → List Char → Prop
  | mk {inner after start later : List Char} {key : String} {value : Json}
      (named : readText inner = .ok (key, after)) (colon : skipSpaces after = ':' :: start)
      (read : readValue steps (skipSpaces start) = .ok (value, later)) :
      ReadsMember steps ('"' :: inner) (key, value) later

/-- How members are read: the first one, and after it the end or the others. -/
inductive ReadsMembers (steps : Nat) (text : List Char) :
    List (String × Json) → List Char → Prop
  | last {member : String × Json} {later rest : List Char} (first : ReadsMember steps text member later)
      (close : skipSpaces later = '\x7d' :: rest) : ReadsMembers steps text [member] rest
  | more {member : String × Json} {members : List (String × Json)} {later inner rest : List Char}
      (first : ReadsMember steps text member later) (comma : skipSpaces later = ',' :: inner)
      (others : readMembers steps (skipSpaces inner) = .ok (members, rest)) :
      ReadsMembers steps text (member :: members) rest

theorem readsValue_of_readValue (read : readValue (steps + 1) text = .ok (json, rest)) :
    ReadsValue steps text json rest := by
  unfold readValue at read
  split at read
  next => omega
  next _ _ step =>
    obtain rfl := Nat.succ.inj step
    split at read
    next close =>
      obtain ⟨rfl, rfl⟩ := Prod.mk.inj (Except.ok.inj read)
      exact .emptyList close
    next =>
      obtain ⟨⟨items, _⟩, found, same⟩ := map_eq_ok.mp read
      obtain ⟨rfl, rfl⟩ := Prod.mk.inj same
      exact .list found
  next _ _ step =>
    obtain rfl := Nat.succ.inj step
    split at read
    next close =>
      obtain ⟨rfl, rfl⟩ := Prod.mk.inj (Except.ok.inj read)
      exact .emptyObject close
    next =>
      obtain ⟨⟨members, _⟩, found, same⟩ := map_eq_ok.mp read
      obtain ⟨rfl, rfl⟩ := Prod.mk.inj same
      exact .object found
  next => exact .scalar read

theorem readsItems_of_readItems (read : readItems (steps + 1) text = .ok (items, rest)) :
    ReadsItems steps text items rest := by
  unfold readItems at read
  obtain ⟨⟨item, later⟩, first, read⟩ := bind_eq_ok.mp read
  simp only at read
  split at read
  next close =>
    obtain ⟨rfl, rfl⟩ := Prod.mk.inj (pure_eq_ok.mp read)
    exact .last first close
  next comma =>
    obtain ⟨⟨others, _⟩, more, read⟩ := bind_eq_ok.mp read
    obtain ⟨rfl, rfl⟩ := Prod.mk.inj (pure_eq_ok.mp read)
    exact .more first comma more
  next => exact absurd read throw_ne_ok

theorem readsMembers_of_readMembers (read : readMembers (steps + 1) text = .ok (members, rest)) :
    ReadsMembers steps text members rest := by
  unfold readMembers at read
  split at read
  next => omega
  next _ _ step =>
    obtain rfl := Nat.succ.inj step
    obtain ⟨⟨key, after⟩, named, read⟩ := bind_eq_ok.mp read
    simp only at read
    split at read
    next colon =>
      obtain ⟨⟨value, later⟩, found, read⟩ := bind_eq_ok.mp read
      have first := ReadsMember.mk named colon found
      simp only at read
      split at read
      next close =>
        obtain ⟨rfl, rfl⟩ := Prod.mk.inj (pure_eq_ok.mp read)
        exact .last first close
      next comma =>
        obtain ⟨⟨others, _⟩, more, read⟩ := bind_eq_ok.mp read
        obtain ⟨rfl, rfl⟩ := Prod.mk.inj (pure_eq_ok.mp read)
        exact .more first comma more
      next => exact absurd read throw_ne_ok
    next => exact absurd read throw_ne_ok
  next => cases read

theorem readValue_of_parse {text : String} (read : parse text = .ok json) :
    ∃ rest, readValue (text.toList.length + 1) (skipSpaces text.toList) = .ok (json, rest) := by
  obtain ⟨⟨value, rest⟩, found, read⟩ := bind_eq_ok.mp read
  simp only at read
  split at read
  next =>
    obtain rfl := pure_eq_ok.mp read
    exact ⟨rest, found⟩
  next => exact absurd read throw_ne_ok

end steps

/-! ### Keys -/

/-- Data in which an object has every key once. -/
abbrev HasDistinctKeys (json : Json) : Prop := json.Proper (fun _ => True)

theorem hasDistinctKeys_of_readNumber {negative : Bool} {text rest : List Char} {json : Json}
    (read : readNumber negative text = .ok (json, rest)) : json.HasDistinctKeys := by
  unfold readNumber at read
  simp only at read
  split at read
  next => simp at read
  next =>
    split at read
    next =>
      obtain ⟨rfl, -⟩ := Prod.mk.inj (Except.ok.inj read)
      exact .float trivial
    next =>
      split at read
      next =>
        obtain ⟨rfl, -⟩ := Prod.mk.inj (Except.ok.inj read)
        exact .float trivial
      next =>
        split at read
        next => simp at read
        next =>
          obtain ⟨rfl, -⟩ := Prod.mk.inj (Except.ok.inj read)
          exact .int _

theorem hasDistinctKeys_of_readScalar {text rest : List Char} {json : Json}
    (read : readScalar text = .ok (json, rest)) : json.HasDistinctKeys := by
  unfold readScalar at read
  split at read
  next =>
    obtain ⟨_, -, same⟩ := map_eq_ok.mp read
    obtain ⟨rfl, -⟩ := Prod.mk.inj same
    exact .text _
  next =>
    split at read
    next word value found =>
      obtain ⟨rfl, -⟩ := Prod.mk.inj (Except.ok.inj read)
      have known : (word, value) ∈ words := List.mem_of_find?_eq_some found
      simp only [words, List.mem_cons, Prod.mk.injEq, List.not_mem_nil, or_false] at known
      rcases known with ⟨-, rfl⟩ | ⟨-, rfl⟩ | ⟨-, rfl⟩ | ⟨-, rfl⟩ | ⟨-, rfl⟩ | ⟨-, rfl⟩
      · exact .null
      · exact .bool _
      · exact .bool _
      all_goals exact .float trivial
    next =>
      split at read
      · exact hasDistinctKeys_of_readNumber read
      · exact hasDistinctKeys_of_readNumber read

theorem hasDistinctKeys_object {members : List (String × Json)}
    (each : ∀ member ∈ members, member.2.HasDistinctKeys) :
    (Json.object (Entries.ofPairs members)).HasDistinctKeys := by
  refine .object (Entries.nodup_ofPairs members) fun member known => each member ?_
  exact Entries.mem_of_get?_ofPairs (Entries.get?_of_mem (Entries.nodup_ofPairs members) known)

theorem hasDistinctKeys_of_read (steps : Nat) :
    (∀ {text rest : List Char} {json : Json}, readValue steps text = .ok (json, rest) →
      json.HasDistinctKeys) ∧
    (∀ {text rest : List Char} {items : List Json}, readItems steps text = .ok (items, rest) →
      ∀ item ∈ items, item.HasDistinctKeys) ∧
    ∀ {text rest : List Char} {members : List (String × Json)},
      readMembers steps text = .ok (members, rest) →
        ∀ member ∈ members, member.2.HasDistinctKeys := by
  induction steps with
  | zero =>
    exact ⟨fun read => by simp [readValue] at read, fun read => by simp [readItems] at read,
      fun read => by simp [readMembers] at read⟩
  | succ steps ih =>
    obtain ⟨values, items, members⟩ := ih
    refine ⟨fun read => ?_, fun read => ?_, fun read => ?_⟩
    · cases readsValue_of_readValue read with
      | scalar read => exact hasDistinctKeys_of_readScalar read
      | emptyList => exact .list (by simp)
      | list read => exact .list (items read)
      | emptyObject => exact .object List.nodup_nil (by simp)
      | object read => exact hasDistinctKeys_object (members read)
    · cases readsItems_of_readItems read with
      | last first => exact List.forall_mem_singleton.mpr (values first)
      | more first _ others => exact List.forall_mem_cons.mpr ⟨values first, items others⟩
    · cases readsMembers_of_readMembers read with
      | last first =>
        obtain ⟨-, -, read⟩ := first
        exact List.forall_mem_singleton.mpr (values read)
      | more first _ others =>
        obtain ⟨-, -, read⟩ := first
        exact List.forall_mem_cons.mpr ⟨values read, members others⟩

theorem hasDistinctKeys_of_parse {text : String} {json : Json} (read : parse text = .ok json) :
    json.HasDistinctKeys := by
  obtain ⟨_, found⟩ := readValue_of_parse read
  exact (hasDistinctKeys_of_read _).1 found

end ToolGraph.Json
