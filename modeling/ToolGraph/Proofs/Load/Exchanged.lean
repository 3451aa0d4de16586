import ToolGraph.Proofs.Arguments
import ToolGraph.Proofs.JsonForm
import ToolGraph.Proofs.Load.Reload

/-!
Loaded programs in their JSON form. All that native and built-in tools hold is JSON data, so a program
can only change where a source is read as data that is none, or where a temperature is not a number.
-/
namespace ToolGraph.Load
open Entries

def ReadsJson (context : LoadContext) (load : Load) : Prop :=
  ∀ location source, load.source? location = some source → ∃ fetched,
    Source.read context.base context.model fetched = .ok source ∧
      ∀ data, Document.IsData fetched.content data → data.IsJson

theorem Whole.hasJsonArguments {context : LoadContext} {answers : Answers} {root : List Char}
    {first : Source} {load : Load} (whole : load.Whole context answers root first)
    (plain : ReadsJson context load) (name entry : String) :
    ∀ member ∈ (load.program name entry).tools, member.2.HasJsonArguments := by
  rintro ⟨id, tool⟩ member
  obtain ⟨own, found, rfl⟩ := whole.finished_of_mem member
  have known : own.HasJsonArguments := by
    rcases whole.sound.known found with ⟨location, source, at_, defined⟩ | ⟨_, _, _, -, leads⟩
    · obtain ⟨fetched, given, data⟩ := plain location source at_
      exact Source.hasJsonArguments_of_read given data own defined
    · obtain ⟨builtin, known⟩ := builtin_of_find leads
      exact Builtin.hasJsonArguments_of_find? known
  -- A finished tool differs in its table of targets alone.
  rw [finished_eq]
  exact known

theorem Returns.closed {request : LoadRequest} {world : World} {program : Program}
    (returns : Returns request world program) : program.Closed := by
  obtain ⟨answers, load, done, same⟩ := returns.completes
  obtain ⟨root, first, -, selected, whole⟩ := done.whole
  rw [same]
  exact whole.closed selected

theorem Returns.distinct {request : LoadRequest} {world : World} {program : Program}
    (returns : Returns request world program) : program.Distinct := by
  obtain ⟨answers, load, done, same⟩ := returns.completes
  obtain ⟨root, first, read, -, whole⟩ := done.whole
  rw [same]
  exact whole.distinct read _ _

/-- A program that is loaded survives its JSON form, in every layout, if and only if its arguments are
JSON data and no temperature is not a number, as far as the keys of its tools have an encoding. Arguments are
JSON data where the sources are read as such. There is no JSON form for integers that are too long,
arguments that are too deep, and bytes and keys that have no encoding. -/
theorem loaded_survives {request : LoadRequest} {world : World} {program : Program}
    (returns : Returns request world program) :
    ((∀ entry ∈ program.tools, entry.2.HasEncodableKeys) →
      ∀ indent text, program.text ⟨indent, false⟩ = .ok text → ∃ result, program.ReadsAs text result) ∧
    (∀ layout error, program.text layout = .error error → error = .bare (.json .hugeInteger) ∨
      ∃ fault, error = .bare fault ∧ ∃ member ∈ program.tools, ∃ table ∈ member.2.arguments,
        ∃ entry ∈ table, entry.2.fault? Value.maxLevels = some fault ∧
          (Value.maxLevels < entry.2.levels ∨ ¬ entry.2.IsEncodable)) ∧
    ∀ answers load, Completes request world.place answers load program.entry →
      program = load.program request.name program.entry →
      ReadsJson (request.contextAt world.place) load →
      ∀ entry ∈ program.tools, entry.2.HasJsonArguments := by
  refine ⟨fun _ indent text written => ⟨_, Program.readsAs_reread returns.distinct written⟩,
    fun layout error => Program.cause_of_text_eq_error, ?_⟩
  intro answers load done same plain
  obtain ⟨root, first, -, -, whole⟩ := done.whole
  rw [same]
  exact whole.hasJsonArguments plain _ _

/-! ### Texts in hand -/

theorem eq_ofJson_of_isData {text : String} {json : Json} {data : Value}
    (other : Document.isArtifact (Text.encode text.toList) ≠ .ok true)
    (parsed : Json.parse text = .ok json)
    (known : Document.IsData (Text.encode text.toList) data) : data = .ofJson json := by
  cases known with
  | artifact kind => exact absurd kind other
  | description _ found decoded =>
    obtain rfl := Option.some.inj ((Text.decodeUtf8?_encode false _).symm.trans found)
    rw [String.ofList_toList, Document.decode, Document.decodeWith, if_neg (by decide), parsed] at decoded
    simp only [Document.root] at decoded
    split at decoded
    next entries whole =>
      obtain rfl := Except.ok.inj decoded
      exact whole.symm
    next => cases decoded

theorem readsJson_inHand {text name : String} {place : Canonical.Place} {answers : Answers} {load : Load}
    {entry : String} (done : Completes (inHand text name) place answers load entry)
    (alone : load.sources.keys = ["inline".toList])
    (plain : ∀ data, Document.IsData (Text.encode text.toList) data → data.IsJson) :
    ReadsJson ((inHand text name).contextAt place) load := by
  obtain ⟨root, first, ⟨fetched, ⟨-, content⟩, read⟩, -, whole⟩ := done.whole
  have here : ∀ {location source}, load.source? location = some source →
      location = "inline".toList := fun found =>
    List.mem_singleton.mp (alone ▸ mem_keys_of_source? found)
  intro location source found
  obtain rfl : location = root := (here found).trans (here whole.sound.rooted).symm
  obtain rfl := Option.some.inj (found.symm.trans whole.sound.rooted)
  obtain rfl : fetched = ⟨location, Text.encode text.toList⟩ := Except.ok.inj content
  exact ⟨_, read, plain⟩

def limited (most : Json) : Json :=
  .object [("openapi", .text "3"), ("paths", .object [("/p", .object [("put", .object [
    ("requestBody", .object [("content", .object [("application/json",
      .object [("schema", .object [("maxItems", most)])])])])])])])]

def short : Json := limited (.int 3)

theorem isJson_short {data : Value}
    (known : Document.IsData (Text.encode (short.render ⟨none, false⟩).toList) data) : data.IsJson := by
  have plain : short.Plain :=
    Value.toJson?_plain (show (Value.ofJson short).toJson? = some short from rfl)
  have printable : short.isPrintable = true := by decide +kernel
  have parsed : Json.parse (short.render ⟨none, false⟩ ++ "") = .ok short :=
    Json.parse_render rfl plain printable (by simp)
  rw [String.append_empty] at parsed
  have kept : Document.holds (Text.encode Document.artifactKind.toList)
      (Text.encode (short.render ⟨none, false⟩).toList) = false := by decide +kernel
  have other : Document.isArtifact (Text.encode (short.render ⟨none, false⟩).toList) = .ok false := by
    rw [Document.isArtifact, kept]
    rfl
  rw [eq_ofJson_of_isData (by simp [other]) parsed known]
  exact ⟨short, plain, rfl⟩

set_option maxRecDepth 10000 in
theorem short_survives : ∃ program text result,
    Returns (inHand (short.render ⟨none, false⟩) "") (.ofFiles "/work" []) program ∧
      program.text ⟨none, false⟩ = .ok text ∧ program.ReadsAs text result ∧
      result.same program = true := by
  let request := inHand (short.render ⟨none, false⟩) ""
  let world : World := .ofFiles "/work" []
  have known : (complete request world).1.toOption.map (fun done =>
        (done.1.sources.keys, ((done.1.program request.name done.2).text ⟨none, false⟩).toOption.isSome,
          (done.1.program request.name done.2).tools.all (fun entry => entry.2.temperature != some .nan),
          (done.1.program request.name done.2).tools.all (fun entry => entry.2.HasEncodableKeys))) =
      some (["inline".toList], true, true, true) := by decide +kernel
  cases completed : (complete request world).1 with
  | error error => simp [completed, Except.toOption] at known
  | ok done =>
    obtain ⟨load, entry⟩ := done
    simp only [completed, Except.toOption, Option.map_some, Option.some.injEq, Prod.mk.injEq] at known
    obtain ⟨alone, written, numbers, keys⟩ := known
    have done := completes_of_complete completed
    have returns : Returns request world (load.program request.name entry) :=
      .inl (run_eq_ok.mpr ⟨load, entry, completed, rfl⟩)
    obtain ⟨reads, -, data⟩ := loaded_survives returns
    have plain := data _ load done rfl (readsJson_inHand done alone fun _ => isJson_short)
    cases given : (load.program request.name entry).text ⟨none, false⟩ with
    | error error => simp [given] at written
    | ok text =>
      have encodable : ∀ own ∈ (load.program request.name entry).tools, own.2.HasEncodableKeys :=
        fun own member => of_decide_eq_true (List.all_eq_true.mp keys own member)
      obtain ⟨result, read⟩ := reads encodable none text given
      refine ⟨_, text, result, returns, given, read, read.same.mpr fun entry member => ⟨plain _ member, ?_⟩⟩
      simpa using List.all_eq_true.mp numbers entry member

theorem exists_readsAs {request : LoadRequest} {world : World} {same : Bool}
    (known : (run request world).result.toOption.map (fun program =>
      ((program.text ⟨none, false⟩).toOption.isSome, program.reread.same program)) = some (true, same)) :
    ∃ program text result, Returns request world program ∧ program.text ⟨none, false⟩ = .ok text ∧
      program.ReadsAs text result ∧ result.same program = same := by
  cases loaded : (run request world).result with
  | error error => simp [loaded, Except.toOption] at known
  | ok program =>
    rw [loaded] at known
    obtain ⟨written, same⟩ := Prod.mk.inj (Option.some.inj known)
    have returns : Returns request world program := .inl loaded
    cases given : program.text ⟨none, false⟩ with
    | error error => simp [given, Except.toOption] at written
    | ok text =>
      exact ⟨program, text, _, returns, given, Program.readsAs_reread returns.distinct given, same⟩

set_option maxRecDepth 10000 in
theorem not_a_number_changes :
    ∀ content ∈ ["temperature: nan\n\nGo on.", (limited (.float .nan)).render ⟨none, false⟩],
      ∃ program text result, Returns (inHand content "") (.ofFiles "/work" []) program ∧
        program.text ⟨none, false⟩ = .ok text ∧ program.ReadsAs text result ∧
        result.same program = false := by
  simp only [List.forall_mem_cons]
  exact ⟨exists_readsAs (by decide +kernel), exists_readsAs (by decide +kernel), by simp⟩

end ToolGraph.Load
