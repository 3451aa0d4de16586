import Mathlib.Data.Bool.AllAny
import ToolGraph.Proofs.Artifact.Bytes
import ToolGraph.Proofs.Exchange
import ToolGraph.Proofs.Json.Verbatim
import ToolGraph.Proofs.Sniffing.Answers

/-!
Looking for words in bytes before they are decoded. Where the words stand as they are, the bytes are taken
for what they decode to; and they do stand so in every text without a backslash, be it JSON or YAML, and
in every artifact that is written.
-/
namespace ToolGraph.Document
open Text

/-! ### What bytes decode to -/

def decodedVersion (content : Bytes) : Except Error (Option Nat) :=
  match decode? content with
  | none => .ok none
  | some chars =>
    match decode (String.ofList chars) "" none with
    | .ok root => versionOf root
    | .error (.conversion ..) => .ok none
    | .error error => .error error

def NamesArtifact (content : Bytes) : Prop :=
  ∃ chars json, decodeDetected? content = some chars ∧ Json.parse (String.ofList chars) = .ok json ∧
    json.member? "kind" = some (.text artifactKind)

def IsMarkedArtifact (content : Bytes) : Prop := encode artifactKind.toList <:+: content

/-- The bytes are read as a text in UTF-8, but for a mark in front of it. -/
def IsUtf8 (content : Bytes) : Prop :=
  ∃ rest, rest <:+ content ∧ decodeDetected? content = decodeUtf8? true rest

def backslash : UInt8 := 0x5c

/-! ### Words of a text -/

section words
variable {text location : String} {format : Option Format} {root : Root}

theorem versionOf_eq_some {version : Nat} (found : versionOf root = .ok (some version)) :
    ∃ key ∈ ["swagger", "openapi"], ∃ value, (Value.map root).member? key = some value := by
  unfold versionOf at found
  simp only at found
  split at found
  next present =>
    cases member : (Value.map root).member? "swagger" with
    | none => simp [Value.get, member, Value.isPresent] at present
    | some value => exact ⟨"swagger", by simp, value, member⟩
  next =>
    split at found
    next => cases found
    next =>
      cases member : (Value.map root).member? "openapi" with
      | none =>
        rw [member] at found
        simp [Value.display, startsWith] at found
      | some value => exact ⟨"openapi", by simp, value, member⟩

theorem member?_ofJson (json : Json) (key : String) :
    (Value.ofJson json).member? key = (json.member? key).map Value.ofJson := by
  cases json with
  | object members =>
    simp only [Value.ofJson, Value.member?, Json.member?]
    exact Value.entry?_ofMembers members key
  | _ => rfl

theorem root_eq_ok {kind : String} {value : Value} (taken : Document.root location kind value = .ok root) :
    value = .map root := by
  unfold Document.root at taken
  split at taken
  next => rw [Except.ok.inj taken]
  next => cases taken

theorem key_verbatim {key : String} {value : Value} (plain : '\\' ∉ text.toList)
    (letters : ∀ c ∈ key.toList, c.isAlpha = true) (decoded : decode text location format = .ok root)
    (member : (Value.map root).member? key = some value) : key.toList <:+: text.toList := by
  have yaml {tried : Bool} (decoded : decodeYaml readYaml text location tried = .ok root) :
      key.toList <:+: text.toList := by
    unfold decodeYaml at decoded
    split at decoded
    next data read =>
      obtain rfl := root_eq_ok decoded
      exact Yaml.member?_verbatim plain letters (parse_of_readYaml read) member
    next => cases decoded
    next => cases decoded
  unfold decode decodeWith at decoded
  split at decoded
  next => exact yaml decoded
  next =>
    split at decoded
    next json read =>
      rw [← root_eq_ok decoded, member?_ofJson] at member
      obtain ⟨found, known, -⟩ := Option.map_eq_some_iff.mp member
      exact (Json.member?_verbatim plain read known).1
    next => cases decoded
    next =>
      split at decoded
      next => cases decoded
      next => exact yaml decoded

end words

/-! ### Words of bytes -/

section bytes
variable {content : Bytes}

theorem not_mem_of_decodeUtf8? {surrogates : Bool} {bytes : Bytes} {chars : List Char}
    (plain : backslash ∉ bytes) (read : decodeUtf8? surrogates bytes = some chars) : '\\' ∉ chars := by
  intro member
  obtain ⟨front, back, same⟩ := List.append_of_mem member
  have inside : encode ['\\'] <:+: bytes :=
    infix_of_decodeUtf8? (List.all_iff_forall_prop.mp (by decide)) read ⟨front, back, by simp [same]⟩
  exact plain (inside.subset (by decide))

theorem openApiVersion_of_isMarked (marked : IsMarked content) :
    openApiVersion content = decodedVersion content := if_neg (isMarked_iff.mp marked)

theorem openApiVersion_of_not_isMarked (unmarked : ¬ IsMarked content) :
    openApiVersion content = .ok none := if_pos (not_not.mp (isMarked_iff.not.mp unmarked))

theorem isMarked_of_decodedVersion {version : Nat} (plain : backslash ∉ content)
    (found : decodedVersion content = .ok (some version)) : IsMarked content := by
  unfold decodedVersion at found
  split at found
  next => cases found
  next chars read =>
    split at found
    next root decoded =>
      obtain ⟨key, word, value, member⟩ := versionOf_eq_some found
      have plain := not_mem_of_decodeUtf8? plain read
      rw [← @String.toList_ofList chars] at plain
      have both : (∀ c ∈ key.toList, c.isAlpha = true) ∧ ∀ c ∈ key.toList, c.toNat < 0x80 := by
        rcases List.mem_cons.mp word with rfl | word
        · exact ⟨List.all_iff_forall_prop.mp (by decide), List.all_iff_forall_prop.mp (by decide)⟩
        · obtain rfl := List.mem_singleton.mp word
          exact ⟨List.all_iff_forall_prop.mp (by decide), List.all_iff_forall_prop.mp (by decide)⟩
      have inside := key_verbatim plain both.1 decoded member
      rw [String.toList_ofList] at inside
      have held := infix_of_decodeUtf8? both.2 read inside
      rcases List.mem_cons.mp word with rfl | word
      · exact .inl held
      · exact .inr (List.mem_singleton.mp word ▸ held)
    next => cases found
    next => cases found

theorem isMarkedArtifact_of_namesArtifact (names : NamesArtifact content)
    (utf8 : IsUtf8 content) (plain : backslash ∉ content) : IsMarkedArtifact content := by
  obtain ⟨chars, json, read, parsed, kind⟩ := names
  obtain ⟨rest, part, detected⟩ := utf8
  rw [detected] at read
  have plain := not_mem_of_decodeUtf8? (fun member => plain (part.subset member)) read
  rw [← @String.toList_ofList chars] at plain
  have inside := (Json.member?_verbatim plain parsed kind).2 artifactKind rfl
  rw [String.toList_ofList] at inside
  exact (infix_of_decodeUtf8? (List.all_iff_forall_prop.mp (by decide)) read inside).trans part.isInfix

theorem text?_kind {json : Json} {text : String} :
    (json.member? "kind").bind Json.text? = some text ↔ json.member? "kind" = some (.text text) := by
  cases json.member? "kind" with
  | none => simp
  | some value => cases value <;> simp [Json.text?]

theorem isArtifact_iff : isArtifact content = .ok true ↔ NamesArtifact content ∧ IsMarkedArtifact content := by
  unfold isArtifact
  constructor
  · intro found
    split at found
    next => cases found
    next marked =>
      have marked : IsMarkedArtifact content := holds_eq_true_iff.mp (by simpa using marked)
      split at found
      next => cases found
      next chars read =>
        split at found
        next json parsed =>
          exact ⟨⟨chars, json, read, parsed, text?_kind.mp (beq_iff_eq.mp (Except.ok.inj found))⟩, marked⟩
        next => cases found
        next => cases found
  · rintro ⟨⟨chars, json, read, parsed, kind⟩, marked⟩
    rw [holds_eq_true_iff.mpr marked]
    simp only [read, parsed, text?_kind.mpr kind]
    rfl

theorem namesArtifact_of_disassembleBytes {program : Program}
    (read : Artifact.disassembleBytes content = .ok program) : NamesArtifact content := by
  unfold Artifact.disassembleBytes Artifact.disassemble at read
  split at read
  next chars decoded =>
    split at read
    next => cases read
    next => cases read
    next json parsed =>
      split at read
      next kind => exact ⟨chars, json, decoded, parsed, text?_kind.mp kind⟩
      next => cases read
  next => cases read

end bytes

/-- Words that stand in the bytes are found, and the bytes are then taken for what they decode to. In
a text in UTF-8 without a backslash, and in every artifact that is written, they do stand so. -/
theorem classification_verbatim (content : Bytes) :
    (IsMarked content → openApiVersion content = decodedVersion content) ∧
    (¬ IsMarked content → openApiVersion content = .ok none ∧
      (backslash ∉ content → ∀ version, decodedVersion content = .ok version → version = none)) ∧
    (isArtifact content = .ok true ↔ NamesArtifact content ∧ IsMarkedArtifact content) ∧
    (NamesArtifact content → IsUtf8 content → backslash ∉ content → IsMarkedArtifact content) ∧
    (∀ program, Artifact.disassembleBytes content = .ok program → NamesArtifact content) ∧
    ∀ program : Program, program.Distinct → ∀ text, Artifact.assemble program = .ok text →
      isArtifact (encode text.toList) = .ok true := by
  refine ⟨openApiVersion_of_isMarked, fun unmarked => ⟨openApiVersion_of_not_isMarked unmarked, ?_⟩,
    isArtifact_iff, isMarkedArtifact_of_namesArtifact, fun _ => namesArtifact_of_disassembleBytes,
    fun _ distinct _ => Artifact.isArtifact_of_assemble distinct⟩
  intro plain version decoded
  cases version with
  | none => rfl
  | some version => exact absurd (isMarked_of_decodedVersion plain decoded) unmarked

def note (kind : String) : Bytes :=
  encode ("\x7b\"kind\": \"" ++ kind ++
    "\", \"name\": \"n\", \"entry\": 0, \"tools\": [\x7b\"id\": \"a\"\x7d]\x7d").toList

def lone : Program where
  name := "n"
  entry := "a"
  tools := [("a", Tool.named "a")]

def wideNote : Bytes := (note artifactKind).flatMap (fun byte => [byte, 0])

def spelledDescription : Bytes :=
  encode "\x7b\"\\u006fpenapi\": \"3.0.0\", \"paths\": \x7b\x7d\x7d".toList

theorem note_classified :
    openApiVersion (note artifactKind) = .ok none ∧ isArtifact (note artifactKind) = .ok true ∧
      ∃ text, Artifact.assemble lone = .ok text ∧ isArtifact (encode text.toList) = .ok true := by
  obtain ⟨-, unmarked, recognised, verbatim, named, written⟩ := classification_verbatim (note artifactKind)
  have readable : (Artifact.disassembleBytes (note artifactKind)).map (fun _ => ()) = .ok () := by
    decide +kernel
  have writable : (Artifact.assemble lone).map (fun _ => ()) = .ok () := by decide +kernel
  obtain ⟨program, read, -⟩ := map_eq_ok.mp readable
  obtain ⟨text, assembled, -⟩ := map_eq_ok.mp writable
  have names := named program read
  have utf8 : IsUtf8 (note artifactKind) := ⟨_, List.suffix_rfl, by decide +kernel⟩
  have distinct : lone.Distinct := by
    refine ⟨List.nodup_singleton _, fun member => ?_⟩
    obtain ⟨rfl, rfl⟩ := Prod.mk.inj (List.mem_singleton.mp member)
    exact ⟨List.nodup_nil, List.nodup_nil, by rintro arguments ⟨⟩⟩
  refine ⟨(unmarked fun marked => isMarked_iff.mp marked (by decide +kernel)).1,
    recognised.mpr ⟨names, verbatim names utf8 (by decide +kernel)⟩,
    text, assembled, written lone distinct text assembled⟩

/-- A description whose word has an escape, and artifacts whose kind has one or stands in a wider
encoding, are not recognised. -/
theorem escapes_hide_words :
    (openApiVersion spelledDescription = .ok none ∧ decodedVersion spelledDescription = .ok (some 3)) ∧
      (isArtifact (note "toolscribe.assembled\\/v1") = .ok false ∧
        NamesArtifact (note "toolscribe.assembled\\/v1") ∧
        ∃ program, Artifact.disassembleBytes (note "toolscribe.assembled\\/v1") = .ok program) ∧
      isArtifact wideNote = .ok false ∧ NamesArtifact wideNote ∧
        ∃ program, Artifact.disassembleBytes wideNote = .ok program := by
  have readable : (Artifact.disassembleBytes (note "toolscribe.assembled\\/v1")).map (fun _ => ()) =
      .ok () := by
    decide +kernel
  have readable' : (Artifact.disassembleBytes wideNote).map (fun _ => ()) = .ok () := by decide +kernel
  obtain ⟨slashed, read, -⟩ := map_eq_ok.mp readable
  obtain ⟨wide, read', -⟩ := map_eq_ok.mp readable'
  exact ⟨⟨by decide +kernel, by decide +kernel⟩,
    ⟨by decide +kernel, namesArtifact_of_disassembleBytes read, slashed, read⟩,
    by decide +kernel, namesArtifact_of_disassembleBytes read', wide, read'⟩

end ToolGraph.Document
