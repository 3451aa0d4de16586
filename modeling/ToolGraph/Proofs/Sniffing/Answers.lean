import ToolGraph.Document
import ToolGraph.Proofs.Text.Verbatim
import ToolGraph.Proofs.Yaml.Building

/-!
What looking at bytes answers. Bytes are an artifact or not, a description of one of two versions or none,
and a text is decoded or refused with its location. The exceptions are numbers that are too long and YAML at
which its reader fails without a refusal; that of this library does so at a scalar whose type has no such
value.
-/
namespace ToolGraph.Document
open Text

/-! ### Faults that come through -/

inductive IsReadAsYaml (text : String) : Option Format → Prop where
  | given : IsReadAsYaml text (some .yaml)
  | otherwise (noJson : Json.parse text = .error .malformed) : IsReadAsYaml text none

inductive Escapes (reader : YamlReader) (text : String) (format : Option Format) : Fault → Prop where
  /-- A whole number in JSON is too long to be read. -/
  | long (tried : format ≠ some .yaml) (huge : Json.parse text = .error .hugeInteger) :
      Escapes reader text format (.json .hugeInteger)
  /-- YAML that is not refused for its syntax, and has no data. -/
  | valueless {fault : Fault} (tried : IsReadAsYaml text format)
      (stops : reader text = .error (.other fault)) : Escapes reader text format fault

/-- The bytes have one of the words that tell a description of an interface. -/
def IsMarked (content : Bytes) : Prop :=
  encode "swagger".toList <:+: content ∨ encode "openapi".toList <:+: content

/-- The faults of bytes that come through where their version is asked for. -/
inductive VersionEscapes (reader : YamlReader) (content : Bytes) : Fault → Prop where
  | decoding {chars : List Char} {fault : Fault} (marked : IsMarked content)
      (read : decode? content = some chars)
      (escapes : Escapes reader (String.ofList chars) none fault) : VersionEscapes reader content fault
  /-- The version is data with a whole number that is too long to be shown. -/
  | version {chars : List Char} {root : Root} (marked : IsMarked content)
      (read : decode? content = some chars)
      (decoded : decodeWith reader (String.ofList chars) "" none = .ok root)
      (long : versionOf root = .error (.bare (.json .hugeInteger))) :
      VersionEscapes reader content (.json .hugeInteger)

/-- The faults of bytes that come through where they are looked at as an artifact. -/
inductive ArtifactEscapes (content : Bytes) : Fault → Prop where
  | long {chars : List Char} (marked : encode artifactKind.toList <:+: content)
      (read : decodeDetected? content = some chars)
      (huge : Json.parse (String.ofList chars) = .error .hugeInteger) :
      ArtifactEscapes content (.json .hugeInteger)

/-- A reading answers in one of the ways it may, but where a fault escapes. -/
structure Answers {α : Type} (reading : Except Error α) (answer : Except Error α → Prop)
    (escapes : Fault → Prop) : Prop where
  passes : ∀ fault, escapes fault → reading = .error (.bare fault)
  answers : (∀ fault, ¬ escapes fault) → answer reading

/-! ### Decoding -/

section decoding
variable {reader : YamlReader} {text location : String} {format : Option Format}

theorem root_settles (location kind : String) (value : Value) :
    (∃ entries, root location kind value = .ok entries) ∨
      ∃ fault, root location kind value = .error (.conversion location fault) := by
  unfold root
  split
  · exact .inl ⟨_, rfl⟩
  · exact .inr ⟨_, rfl⟩

theorem decodeYaml_settles (reader : YamlReader) (text location : String) (tried : Bool) :
    ((∃ entries, decodeYaml reader text location tried = .ok entries) ∨
        ∃ fault, decodeYaml reader text location tried = .error (.conversion location fault)) ∨
      ∃ fault, reader text = .error (.other fault) := by
  unfold decodeYaml
  split
  · exact .inl (root_settles _ _ _)
  · exact .inl (.inr ⟨_, rfl⟩)
  next fault failed => exact .inr ⟨fault, failed⟩

theorem decodeYaml_eq_bare {tried : Bool} {fault : Fault} (stops : reader text = .error (.other fault)) :
    decodeYaml reader text location tried = .error (.bare fault) := by
  unfold decodeYaml
  rw [stops]

theorem decodeWith_eq_bare {fault : Fault} (escapes : Escapes reader text format fault) :
    decodeWith reader text location format = .error (.bare fault) := by
  unfold decodeWith
  cases escapes with
  | long tried huge => rw [if_neg tried, huge]
  | valueless tried stops =>
    cases tried with
    | given => exact decodeYaml_eq_bare stops
    | otherwise noJson =>
      rw [if_neg (by decide), noJson]
      exact decodeYaml_eq_bare stops

theorem decodeWith_answers (reader : YamlReader) (text location : String) (format : Option Format) :
    Answers (decodeWith reader text location format) (fun answer => (∃ root, answer = .ok root) ∨
      ∃ fault, answer = .error (.conversion location fault)) (Escapes reader text format) where
  passes _ := decodeWith_eq_bare
  answers quiet := by
    unfold decodeWith
    split
    next yaml =>
      refine (decodeYaml_settles reader text location false).resolve_right ?_
      rintro ⟨fault, stops⟩
      exact quiet fault (.valueless (yaml ▸ .given) stops)
    next tried =>
      split
      · exact root_settles _ _ _
      next huge => exact absurd (.long tried huge) (quiet _)
      next noJson =>
        split
        · exact .inr ⟨_, rfl⟩
        next other =>
          refine (decodeYaml_settles reader text location true).resolve_right ?_
          rintro ⟨fault, stops⟩
          have unsaid : format = .none := by
            rcases format with _ | _ | _
            · rfl
            · exact absurd rfl other
            · exact absurd rfl tried
          exact quiet fault (.valueless (unsaid ▸ .otherwise noJson) stops)

end decoding

/-! ### Looking at bytes -/

section bytes
variable {content : Bytes} {chars : List Char}

theorem isMarked_iff : IsMarked content ↔
    ¬ (!holds (encode "swagger".toList) content && !holds (encode "openapi".toList) content) = true := by
  rw [Bool.and_eq_true, not_and_or, Bool.not_eq_true', Bool.not_eq_true', Bool.not_eq_false,
    Bool.not_eq_false, holds_eq_true_iff, holds_eq_true_iff, IsMarked]

theorem versionOf_settles (root : Root) :
    (∃ version ∈ [none, some 2, some 3], versionOf root = .ok version) ∨
      versionOf root = .error (.bare (.json .hugeInteger)) := by
  unfold versionOf
  simp only
  split
  · exact .inl ⟨some 2, by simp, rfl⟩
  · split
    · exact .inr rfl
    · split
      · exact .inl ⟨some 3, by simp, rfl⟩
      · exact .inl ⟨none, by simp, rfl⟩

theorem openApiVersionWith_answers (reader : YamlReader) (content : Bytes) :
    Answers (openApiVersionWith reader content)
      (fun answer => ∃ version ∈ [none, some 2, some 3], answer = .ok version)
      (VersionEscapes reader content) where
  passes fault escapes := by
    have marked : IsMarked content := by cases escapes <;> assumption
    unfold openApiVersionWith
    rw [if_neg (isMarked_iff.mp marked)]
    cases escapes with
    | decoding _ read escapes => simp only [read, decodeWith_eq_bare escapes]
    | version _ read decoded long => simp only [read, decoded, long]
  answers quiet := by
    unfold openApiVersionWith
    split
    next => exact ⟨none, by simp, rfl⟩
    next marked =>
      have marked := isMarked_iff.mpr marked
      split
      next => exact ⟨none, by simp, rfl⟩
      next chars read =>
        have calm (fault : Fault) : ¬ Escapes reader (String.ofList chars) none fault :=
          fun escapes => quiet fault (.decoding marked read escapes)
        obtain ⟨root, decoded⟩ | ⟨fault, refused⟩ :=
          (decodeWith_answers reader (String.ofList chars) "" none).answers calm
        · rw [decoded]
          exact (versionOf_settles root).resolve_right fun long =>
            quiet _ (.version marked read decoded long)
        · rw [refused]
          exact ⟨none, by simp, rfl⟩

theorem isArtifact_answers (content : Bytes) :
    Answers (isArtifact content) (fun answer => ∃ found, answer = .ok found) (ArtifactEscapes content) where
  passes fault escapes := by
    obtain ⟨marked, read, huge⟩ := escapes
    unfold isArtifact
    rw [holds_eq_true_iff.mpr marked]
    simp only [read, huge]
    rfl
  answers quiet := by
    unfold isArtifact
    split
    next => exact ⟨_, rfl⟩
    next marked =>
      have marked : encode artifactKind.toList <:+: content := holds_eq_true_iff.mp (by simpa using marked)
      split
      next => exact ⟨_, rfl⟩
      next chars read =>
        split
        next => exact ⟨_, rfl⟩
        next => exact ⟨_, rfl⟩
        next huge => exact absurd (.long marked read huge) (quiet _)

end bytes

/-- Looking at bytes and decoding a text answer, whatever is in them and whichever reads YAML. The
exceptions are a whole number that is too long, and a text at which the reader of YAML fails though it does
not refuse its syntax. -/
theorem sniffing_answers (reader : YamlReader) (content : Bytes) (text location : String)
    (format : Option Format) :
    Answers (isArtifact content) (fun answer => ∃ found, answer = .ok found) (ArtifactEscapes content) ∧
    Answers (openApiVersionWith reader content)
      (fun answer => ∃ version ∈ [none, some 2, some 3], answer = .ok version)
      (VersionEscapes reader content) ∧
    Answers (decodeWith reader text location format) (fun answer => (∃ root, answer = .ok root) ∨
      ∃ fault, answer = .error (.conversion location fault)) (Escapes reader text format) :=
  ⟨isArtifact_answers content, openApiVersionWith_answers reader content,
    decodeWith_answers reader text location format⟩

/-! ### The reader of this library -/

theorem parse_of_readYaml {text : String} {value : Value} (read : readYaml text = .ok value) :
    Yaml.parse text = .ok value := by
  unfold readYaml at read
  split at read
  next parsed =>
    obtain rfl := Except.ok.inj read
    exact parsed
  next => cases read
  next => cases read

/-- The reader fails without a refusal at a scalar whose type has no such value, or at an escape whose code
no character has. -/
theorem cause_of_readYaml {text : String} {fault : Fault} (stops : readYaml text = .error (.other fault)) :
    Yaml.HasImpossibleEscape text.toList ∨
      ∃ root part : Yaml.Node, Yaml.Node.ofText text.toList = .ok (some root) ∧ part.IsPart root ∧
        ∃ error, fault = .yaml error ∧ part.IsValueless error := by
  unfold readYaml at stops
  split at stops
  next => cases stops
  next => cases stops
  next error other failed =>
    obtain rfl := YamlFailure.other.inj (Except.error.inj stops)
    refine (Yaml.parse_error failed other).imp_right ?_
    rintro ⟨root, part, read, inside, valueless⟩
    exact ⟨root, part, read, inside, error, rfl, valueless⟩

/-- A date in February that no year has. -/
def almanac : String := "openapi: 3.0.0\nday: 2001-02-30\n"

/-- The date has the form of one and is none, so neither decoding nor asking for a version answers. -/
theorem almanac_answers :
    (∃ found, isArtifact (encode almanac.toList) = .ok found) ∧
      openApiVersion (encode almanac.toList) = .error (.bare (.yaml .impossibleValue)) ∧
      decode almanac "a.yaml" none = .error (.bare (.yaml .impossibleValue)) := by
  have noJson : (Json.parse almanac).map (fun _ => ()) = .error .malformed := by decide +kernel
  have stops : (readYaml almanac).map (fun _ => ()) = .error (.other (.yaml .impossibleValue)) := by
    decide +kernel
  have escapes : Escapes readYaml almanac none (.yaml .impossibleValue) :=
    .valueless (.otherwise (map_eq_error.mp noJson)) (map_eq_error.mp stops)
  have marked : IsMarked (encode almanac.toList) := isMarked_iff.mpr (by decide +kernel)
  have read : decode? (encode almanac.toList) = some almanac.toList := by decide +kernel
  have other : ¬ encode artifactKind.toList <:+: encode almanac.toList := by
    rw [← holds_eq_true_iff]
    decide +kernel
  obtain ⟨artifact, version, decoded⟩ :=
    sniffing_answers readYaml (encode almanac.toList) almanac "a.yaml" none
  refine ⟨artifact.answers fun _ long => ?_, version.passes _ (.decoding marked read ?_),
    decoded.passes _ escapes⟩
  · cases long with
    | long marked => exact other marked
  · rwa [String.ofList_toList]

end ToolGraph.Document
