import ToolGraph.Proofs.Artifact.RoundTrip
import ToolGraph.Proofs.Text.Utf8

/-!
Artifacts as bytes. The text that a program is assembled to is known for an artifact by its bytes, and
its bytes hold the program after an exchange.
-/
namespace ToolGraph.Artifact
open Program
variable {program : Program}

/-! ### What was assembled -/

theorem stands_of_toolJson {ids : List String} {id : String} {json : Json}
    (made : toolJson program ids id = .ok json) : Stands program ids id json := by
  unfold toolJson at made
  split at made
  next => simp at made
  next tool found =>
    split at made
    next => simp at made
    next members listed =>
      obtain ⟨-, -, made⟩ := bind_eq_ok.mp made
      obtain ⟨arguments, known, rfl⟩ := Option.map_eq_some_iff.mp listed
      exact ⟨tool, arguments, found, known, (pure_eq_ok.mp made).symm⟩

theorem assemble_eq_ok {text : String} (assembled : assemble program = .ok text) :
    ∃ tools, List.Forall₂ (Stands program (order program)) (order program) tools ∧
      (data program tools).isPrintable = true ∧ text = (data program tools).render layout ++ "\n" := by
  unfold assemble at assembled
  obtain ⟨json, made, printed⟩ := bind_eq_ok.mp assembled
  obtain ⟨tools, each, same⟩ := bind_eq_ok.mp made
  obtain rfl : data program tools = json := pure_eq_ok.mp same
  refine ⟨tools, (mapM_eq_ok.mp each).imp fun _ _ => stands_of_toolJson, ?_⟩
  simp only [Json.print?] at printed
  split at printed
  next written given =>
    split at given
    next printable => exact ⟨printable, Option.some.inj given ▸ (pure_eq_ok.mp printed).symm⟩
    next => simp at given
  next => exact absurd printed throw_ne_ok

theorem disassemble_of_assemble (closed : program.Closed) (distinct : program.Distinct) {text : String}
    (assembled : assemble program = .ok text) : disassemble text = .ok program.exchanged := by
  obtain ⟨tools, stands, written, rfl⟩ := assemble_eq_ok assembled
  exact disassemble_data closed distinct stands written

/-! ### Its bytes -/

theorem toList_of_assemble {text : String} (assembled : assemble program = .ok text) :
    ∃ before after, text.toList =
      '\x7b' :: '\n' :: before ++ Document.artifactKind.toList ++ after := by
  obtain ⟨tools, -, -, rfl⟩ := assemble_eq_ok assembled
  have members : ∃ after, Json.chars layout 0 (data program tools) =
      ('\x7b' :: layout.margin 1 ++ Json.quoted false "kind" ++ [':', ' ']) ++
        (Json.quoted false Document.artifactKind ++ after) := by
    simp only [data, Json.chars, List.append_assoc, List.cons_append]
    exact ⟨_, rfl⟩
  obtain ⟨after, members⟩ := members
  refine ⟨"  \"kind\": \"".toList, '"' :: (after ++ ['\n']), ?_⟩
  rw [String.toList_append, Json.render, String.toList_ofList, members, List.append_assoc,
    List.append_assoc]
  rfl

theorem decodeDetected?_of_assemble {text : String} (assembled : assemble program = .ok text) :
    Text.decodeDetected? (Text.encode text.toList) = some text.toList := by
  obtain ⟨before, after, same⟩ := toList_of_assemble assembled
  rw [same]
  exact Text.decodeDetected?_encode _

theorem isArtifact_of_assemble (distinct : program.Distinct) {text : String}
    (assembled : assemble program = .ok text) :
    Document.isArtifact (Text.encode text.toList) = .ok true := by
  obtain ⟨before, after, same⟩ := toList_of_assemble assembled
  have held : Document.holds (Text.encode Document.artifactKind.toList) (Text.encode text.toList) =
      true := by
    rw [same]
    exact Document.holds_encode _ _ _
  obtain ⟨tools, stands, written, rfl⟩ := assemble_eq_ok assembled
  have read := parse_data distinct stands written
  rw [Document.isArtifact, held, decodeDetected?_of_assemble assembled]
  simp only [Bool.not_true, Bool.false_eq_true, if_false, String.ofList_toList, read]
  rfl

theorem disassembleBytes_of_assemble (closed : program.Closed) (distinct : program.Distinct)
    {text : String} (assembled : assemble program = .ok text) :
    disassembleBytes (Text.encode text.toList) = .ok program.exchanged := by
  rw [disassembleBytes, decodeDetected?_of_assemble assembled]
  simp only [String.ofList_toList]
  exact disassemble_of_assemble closed distinct assembled

end ToolGraph.Artifact
