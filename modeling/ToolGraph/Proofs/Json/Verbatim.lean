import ToolGraph.Proofs.Json.Reading

/-!
JSON without escapes. The keys of its objects, and the texts under them, stand in the text that is read
as they are.
-/
namespace ToolGraph.Json
open Text

/-! ### Texts -/

section texts
variable {source text rest : List Char}

theorem skipSpaces_suffix (text : List Char) : skipSpaces text <:+ text := List.dropWhile_suffix _

/-- Without a backslash, characters up to the closing quote stand for themselves. -/
theorem readUnits_verbatim {units : List Nat} (plain : '\\' ∉ text)
    (read : readUnits text = .ok (units, rest)) :
    ∃ written, text = written ++ '"' :: rest ∧ units = written.map Char.toNat := by
  induction text generalizing units with
  | nil => simp [readUnits] at read
  | cons c later ih =>
    rw [List.mem_cons, not_or] at plain
    by_cases quote : c = '"'
    · subst quote
      obtain ⟨rfl, rfl⟩ := Prod.mk.inj (Except.ok.inj read)
      exact ⟨[], rfl, rfl⟩
    · by_cases control : c.toNat < 32
      · rw [readUnits.eq_def] at read
        split at read <;> simp_all
      · rw [readUnits_plain quote (Ne.symm plain.1) control] at read
        obtain ⟨⟨units, behind⟩, found, same⟩ := map_eq_ok.mp read
        obtain ⟨rfl, rfl⟩ := Prod.mk.inj same
        obtain ⟨written, rfl, rfl⟩ := ih plain.2 found
        exact ⟨c :: written, rfl, rfl⟩

theorem readText_verbatim {found : String} (plain : '\\' ∉ text)
    (read : readText text = .ok (found, rest)) : found.toList <:+: text ∧ rest <:+ text := by
  obtain ⟨⟨units, behind⟩, units_, same⟩ := map_eq_ok.mp read
  obtain ⟨rfl, rfl⟩ := Prod.mk.inj same
  obtain ⟨written, rfl, rfl⟩ := readUnits_verbatim plain units_
  rw [ofUnits16_toNat, String.toList_ofList]
  exact ⟨(List.prefix_append written _).isInfix,
    (List.suffix_cons '"' behind).trans (List.suffix_append written _)⟩

end texts

/-! ### Data -/

section data
variable {source text rest : List Char} {json : Json}

theorem cutWhole_suffix (text : List Char) : (cutWhole text).2 <:+ text := by
  unfold cutWhole
  split
  · exact List.suffix_cons _ _
  · exact List.dropWhile_suffix _

theorem cutFraction?_suffix {fraction : List Char} (cut : cutFraction? text = some (fraction, rest)) :
    rest <:+ text := by
  unfold cutFraction? at cut
  split at cut
  next behind =>
    split at cut
    next =>
      obtain ⟨-, rfl⟩ := Prod.mk.inj (Option.some.inj cut)
      exact (List.dropWhile_suffix _).trans (List.suffix_cons '.' behind)
    next => cases cut
  next => cases cut

theorem cutSign_suffix (text : List Char) : (Number.cutSign text).2 <:+ text := by
  unfold Number.cutSign
  split
  · exact List.suffix_cons _ _
  · exact List.suffix_cons _ _
  · exact List.suffix_rfl

theorem cutExponent?_suffix {exponent : Int} (cut : cutExponent? text = some (exponent, rest)) :
    rest <:+ text := by
  unfold cutExponent? at cut
  split at cut
  next mark behind =>
    simp only at cut
    split at cut
    next =>
      obtain ⟨-, rfl⟩ := Prod.mk.inj (Option.some.inj cut)
      exact ((List.dropWhile_suffix _).trans (cutSign_suffix behind)).trans (List.suffix_cons mark behind)
    next => cases cut
  next => cases cut

/-- What is read stands in the source: a text, and of an object the keys with the texts under them. -/
def IsVerbatim (source : List Char) : Json → Prop
  | .text found => found.toList <:+: source
  | .object members => ∀ member ∈ members, member.1.toList <:+: source ∧
      ∀ found, member.2 = .text found → found.toList <:+: source
  | _ => True

theorem readNumber_verbatim (source : List Char) {negative : Bool}
    (read : readNumber negative text = .ok (json, rest)) : json.IsVerbatim source ∧ rest <:+ text := by
  have whole := cutWhole_suffix text
  unfold readNumber at read
  simp only at read
  split at read
  next => cases read
  next =>
    split at read
    next fraction behind cut =>
      obtain ⟨rfl, rfl⟩ := Prod.mk.inj (Except.ok.inj read)
      have behind := (cutFraction?_suffix cut).trans whole
      refine ⟨trivial, ?_⟩
      cases cut' : cutExponent? _ with
      | none => simpa [cut'] using behind
      | some exponent => exact (cutExponent?_suffix cut').trans behind
    next =>
      split at read
      next exponent behind cut =>
        obtain ⟨rfl, rfl⟩ := Prod.mk.inj (Except.ok.inj read)
        exact ⟨trivial, (cutExponent?_suffix cut).trans whole⟩
      next =>
        split at read
        next => cases read
        next =>
          obtain ⟨rfl, rfl⟩ := Prod.mk.inj (Except.ok.inj read)
          exact ⟨trivial, whole⟩

theorem readScalar_verbatim (plain : '\\' ∉ source) (part : text <:+ source)
    (read : readScalar text = .ok (json, rest)) : json.IsVerbatim source ∧ rest <:+ source := by
  unfold readScalar at read
  split at read
  next behind =>
    obtain ⟨⟨found, later⟩, known, same⟩ := map_eq_ok.mp read
    obtain ⟨rfl, rfl⟩ := Prod.mk.inj same
    have part := (List.suffix_cons '"' behind).trans part
    obtain ⟨inside, behind⟩ := readText_verbatim (fun member => plain (part.subset member)) known
    exact ⟨inside.trans part.isInfix, behind.trans part⟩
  next =>
    split at read
    next word value found =>
      obtain ⟨rfl, rfl⟩ := Prod.mk.inj (Except.ok.inj read)
      have known : (word, value) ∈ words := List.mem_of_find?_eq_some found
      refine ⟨?_, (List.drop_suffix _ _).trans part⟩
      simp only [words, List.mem_cons, Prod.mk.injEq, List.not_mem_nil, or_false] at known
      rcases known with ⟨-, rfl⟩ | ⟨-, rfl⟩ | ⟨-, rfl⟩ | ⟨-, rfl⟩ | ⟨-, rfl⟩ | ⟨-, rfl⟩
      all_goals trivial
    next =>
      split at read
      next =>
        obtain ⟨verbatim, rest⟩ := readNumber_verbatim source read
        exact ⟨verbatim, rest.trans ((List.suffix_cons '-' _).trans part)⟩
      next =>
        obtain ⟨verbatim, rest⟩ := readNumber_verbatim source read
        exact ⟨verbatim, rest.trans part⟩

theorem isVerbatim_object {members : List (String × Json)}
    (each : ∀ member ∈ members, member.1.toList <:+: source ∧ member.2.IsVerbatim source) :
    (Json.object (Entries.ofPairs members)).IsVerbatim source := by
  intro member known
  have listed := Entries.mem_of_get?_ofPairs (Entries.get?_of_mem (Entries.nodup_ofPairs members) known)
  obtain ⟨key, value⟩ := each member listed
  refine ⟨key, fun found same => ?_⟩
  rw [same] at value
  exact value

theorem read_verbatim (plain : '\\' ∉ source) (steps : Nat) :
    (∀ {text rest : List Char} {json : Json}, text <:+ source →
      readValue steps text = .ok (json, rest) → json.IsVerbatim source ∧ rest <:+ source) ∧
    (∀ {text rest : List Char} {items : List Json}, text <:+ source →
      readItems steps text = .ok (items, rest) → rest <:+ source) ∧
    ∀ {text rest : List Char} {members : List (String × Json)}, text <:+ source →
      readMembers steps text = .ok (members, rest) →
        (∀ member ∈ members, member.1.toList <:+: source ∧ member.2.IsVerbatim source) ∧
          rest <:+ source := by
  induction steps with
  | zero =>
    exact ⟨fun _ read => by simp [readValue] at read, fun _ read => by simp [readItems] at read,
      fun _ read => by simp [readMembers] at read⟩
  | succ steps ih =>
    obtain ⟨values, items, members⟩ := ih
    have spaces {text : List Char} (part : text <:+ source) : skipSpaces text <:+ source :=
      (skipSpaces_suffix text).trans part
    have behind {c : Char} {text : List Char} (part : c :: text <:+ source) : text <:+ source :=
      (List.suffix_cons c text).trans part
    -- What follows white space and one more character.
    have after {c : Char} {text rest : List Char} (part : text <:+ source)
        (mark : skipSpaces text = c :: rest) : rest <:+ source :=
      behind (mark ▸ spaces part)
    have member {text later : List Char} {member : String × Json} (part : text <:+ source)
        (read : ReadsMember steps text member later) :
        (member.1.toList <:+: source ∧ member.2.IsVerbatim source) ∧ later <:+ source := by
      obtain ⟨named, colon, read⟩ := read
      have part := behind part
      obtain ⟨inside, later⟩ := readText_verbatim (fun member => plain (part.subset member)) named
      obtain ⟨verbatim, later⟩ := values (spaces (after (later.trans part) colon)) read
      exact ⟨⟨inside.trans part.isInfix, verbatim⟩, later⟩
    refine ⟨fun part read => ?_, fun part read => ?_, fun part read => ?_⟩
    · cases readsValue_of_readValue read with
      | scalar read => exact readScalar_verbatim plain part read
      | emptyList close => exact ⟨trivial, after (behind part) close⟩
      | list read => exact ⟨trivial, items (spaces (behind part)) read⟩
      | emptyObject close => exact ⟨by simp [IsVerbatim], after (behind part) close⟩
      | object read =>
        obtain ⟨each, rest⟩ := members (spaces (behind part)) read
        exact ⟨isVerbatim_object each, rest⟩
    · cases readsItems_of_readItems read with
      | last first close => exact after (values part first).2 close
      | more first comma others => exact items (spaces (after (values part first).2 comma)) others
    · cases readsMembers_of_readMembers read with
      | last first close =>
        obtain ⟨verbatim, later⟩ := member part first
        exact ⟨List.forall_mem_singleton.mpr verbatim, after later close⟩
      | more first comma others =>
        obtain ⟨verbatim, later⟩ := member part first
        obtain ⟨each, rest⟩ := members (spaces (after later comma)) others
        exact ⟨List.forall_mem_cons.mpr ⟨verbatim, each⟩, rest⟩

theorem member?_verbatim {text : String} {key : String} {value : Json} (plain : '\\' ∉ text.toList)
    (read : parse text = .ok json) (found : json.member? key = some value) :
    key.toList <:+: text.toList ∧ ∀ written, value = .text written → written.toList <:+: text.toList := by
  obtain ⟨_, known⟩ := readValue_of_parse read
  have verbatim := ((read_verbatim plain _).1 (skipSpaces_suffix _) known).1
  unfold member? at found
  split at found
  next members => exact verbatim (key, value) (Entries.mem_of_get? found)
  next => cases found

end data
end ToolGraph.Json
