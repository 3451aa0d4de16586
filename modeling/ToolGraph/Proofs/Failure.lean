import ToolGraph.Fetch
import ToolGraph.Load.Source
import ToolGraph.Proofs.Artifact.Refusals
import ToolGraph.Proofs.OpenApi.Refusals

/-!
What sources and fetches can fail with. Neither fetching nor reading a source fails in a reference: that
is left to the load.
-/
namespace ToolGraph

namespace Error

/-- A failure of what a location holds: a fault of data, or a refusal to read it. -/
inductive OfContent : Error → Prop where
  | bare (fault : Fault) : OfContent (.bare fault)
  | artifact (fault : ArtifactFault) : OfContent (.artifact fault)
  | parse (location : String) (line : Int) (fault : ParseFault) :
      OfContent (.parse location line fault)
  | conversion (location : String) (fault : ConversionFault) : OfContent (.conversion location fault)

/-- A failure to get at what a location holds. -/
inductive OfFetch : Error → Prop where
  | bare (fault : Fault) : OfFetch (.bare fault)
  | source (location : String) (fault : SourceFault) : OfFetch (.source location fault)

theorem ofContent_of_ofArtifact {error : Error} (known : error.OfArtifact) : OfContent error := by
  cases error with
  | artifact fault => exact .artifact fault
  | _ => simp [OfArtifact, class?] at known

end Error

open Error

/-! ### Documents -/

namespace Document

theorem failsAs_root (location kind : String) (value : Value) :
    FailsAs OfContent (root location kind value) := by
  unfold root
  split
  · exact .ok _
  · exact .error (.conversion _ _)

theorem failsAs_decodeYaml (reader : YamlReader) (text location : String) (tried : Bool) :
    FailsAs OfContent (decodeYaml reader text location tried) := by
  unfold decodeYaml
  split
  · exact failsAs_root _ _ _
  · exact .error (.conversion _ _)
  · exact .error (.bare _)

theorem failsAs_decode (text location : String) (format : Option Format) :
    FailsAs OfContent (decode text location format) := by
  unfold decode decodeWith
  split
  · exact failsAs_decodeYaml _ _ _ _
  · split
    · exact failsAs_root _ _ _
    · exact .error (.bare _)
    · split
      · exact .error (.conversion _ _)
      · exact failsAs_decodeYaml _ _ _ _

theorem failsAs_versionOf (root : Root) : FailsAs OfContent (versionOf root) := by
  unfold versionOf
  simp only
  split
  · exact .ok _
  · split
    · exact .error (.bare _)
    · exact .ok _

theorem failsAs_openApiVersion (content : Bytes) : FailsAs OfContent (openApiVersion content) := by
  unfold openApiVersion openApiVersionWith
  split
  · exact .ok _
  · split
    · exact .ok _
    · split
      · exact failsAs_versionOf _
      · exact .ok _
      next error _ failed => exact .error (failsAs_decode _ _ _ error failed)

theorem failsAs_isArtifact (content : Bytes) : FailsAs OfContent (isArtifact content) := by
  unfold isArtifact
  split
  · exact .ok _
  · split
    · exact .ok _
    · split
      · exact .ok _
      · exact .ok _
      · exact .error (.bare _)

end Document

/-! ### Artifacts -/

namespace Artifact

theorem failsAs_disassembleBytes (content : Bytes) :
    FailsAs OfContent (disassembleBytes content) := by
  intro error failed
  by_cases known : error.OfArtifact
  · exact ofContent_of_ofArtifact known
  · obtain ⟨chars, -, strays⟩ := leaks_disassembleBytes.mp ⟨failed, known⟩
    cases strays <;> exact .bare _

end Artifact

/-! ### Tools of a text -/

namespace Block

theorem failsAs_readLines (location : String) (line : Int) (block : Block) (inHeader : Bool)
    (texts : List (List Char)) : FailsAs OfContent (readLines location line block inHeader texts) := by
  induction texts generalizing line block inHeader with
  | nil => exact .ok _
  | cons text rest ih =>
    unfold readLines
    split
    · exact .map (ih _ _ _) _
    · split
      · exact ih _ _ _
      · split
        · split
          · exact ih _ _ _
          · exact .error (.parse _ _ _)
        · exact ih _ _ _

theorem failsAs_localNames (location : String) (names : Entries String String)
    (blocks : List Block) : FailsAs OfContent (localNames location names blocks) := by
  induction blocks generalizing names with
  | nil => exact .ok _
  | cons block blocks ih =>
    simp only [localNames]
    split
    · exact ih _
    · split
      · exact .error (.parse _ _ _)
      · exact ih _

theorem failsAs_parse (content location workingDir model : String) (firstLine : Int) :
    FailsAs OfContent (parse content location workingDir model firstLine) := by
  unfold parse readAll
  refine .bind (.map (failsAs_readLines _ _ _ _ _) _) (fun blocks _ => ?_)
  split
  · exact .throw (.parse _ _ _)
  · exact .bind (failsAs_localNames _ _ _) (fun _ _ => .pure _)

end Block

namespace OpenApi

theorem ofContent_of_refused {exhausts : Value → Bool} {document : Value} {version : Version}
    {location : String} {error : Error} (refused : Refused exhausts document version location error) :
    OfContent error := by
  cases refused with
  | conversion fault => exact .conversion _ fault
  | leak => exact .bare _

theorem failsAs_tools (document : Value) (version : Version) (location workingDir model : String) :
    FailsAs OfContent (tools document version location workingDir model) := by
  rw [tools_eq]
  exact .map ((failsAs_read (fun _ => false) document version location).mono fun _ =>
    ofContent_of_refused) _

end OpenApi

/-! ### Sources -/

namespace Source

theorem failsAs_ofTools (location : List Char) (linked : Bool) (tools : List Tool) :
    FailsAs OfContent (ofTools location linked tools) := by
  unfold ofTools
  split
  · exact .error (.parse _ _ _)
  · exact .ok _

theorem failsAs_readText (fetched : Fetched) (workingDir model text : String) :
    FailsAs OfContent (readText fetched workingDir model text) := by
  unfold readText
  refine .bind (Document.failsAs_openApiVersion _) (fun version _ => ?_)
  cases version with
  | some version =>
    refine .bind (Document.failsAs_decode _ _ _) (fun root _ => ?_)
    exact .bind (OpenApi.failsAs_tools _ _ _ _ _) (fun tools _ => failsAs_ofTools _ _ _)
  | none => exact .bind (Block.failsAs_parse _ _ _ _ _) (fun tools _ => failsAs_ofTools _ _ _)

theorem failsAs_read (base : List Char) (model : String) (fetched : Fetched) :
    FailsAs OfContent (read base model fetched) := by
  unfold read
  refine .bind (Document.failsAs_isArtifact _) (fun artifact _ => ?_)
  split
  · refine .bind (Artifact.failsAs_disassembleBytes _) (fun program _ => ?_)
    unfold ofProgram
    split
    · exact .error (.bare _)
    · exact .ok _
  · split
    · exact .throw (.parse _ _ _)
    · exact .bind (.mapError (fun _ => .bare _)) (fun _ _ => failsAs_readText _ _ _ _)

end Source

/-! ### Locations -/

namespace Canonical

theorem failsAs_location (place : Place) (written : List Char) :
    FailsAs OfFetch (location place written) := by
  unfold location
  split
  · split
    · exact .ok _
    · exact .error (.source _ _)
  · split
    · split
      · exact .ok _
      · exact .error (.bare _)
    · exact .ok _

end Canonical

namespace Fetch

theorem failsAs_conclude (url : List Char) (outcome : Outcome) :
    FailsAs OfFetch (outcome.conclude url) := by
  unfold Outcome.conclude
  split
  · split
    · exact .error (.source _ _)
    · exact .ok _
  · exact .error (.source _ _)
  · exact .error (.bare _)

theorem failsAs_attempt (patience : Patience) (url : List Char) (left number : Nat)
    (world : World) : FailsAs OfFetch (attempt patience url left number world).1 := by
  induction left generalizing number world with
  | zero => exact failsAs_conclude url _
  | succ left ih =>
    simp only [attempt]
    split
    · split
      · exact ih _ _
      · exact .error (.bare _)
    · exact failsAs_conclude url _

theorem failsAs_web (patience : Patience) (url : List Char) (world : World) :
    FailsAs OfFetch (web patience url world).1 := by
  unfold web
  split
  · exact .ok _
  · have tried := failsAs_attempt patience url patience.retries 0 world
    split
    next failed =>
      rw [failed] at tried
      exact tried
    next => exact .ok _

theorem failsAs_file (path : List Char) (world : World) : FailsAs OfFetch (file path world).1 := by
  unfold file
  split
  · exact .error (.bare _)
  · exact .mapError (fun _ => .source _ _)

theorem failsAs_location (patience : Patience) (written : List Char) (world : World) :
    FailsAs OfFetch (Fetch.location patience written world).1 := by
  unfold Fetch.location
  have canonical := Canonical.failsAs_location world.place written
  split
  next error failed => exact .error (canonical error failed)
  next place _ =>
    refine .map ?_ _
    split
    · exact failsAs_web _ _ _
    · exact failsAs_file _ _

end Fetch
end ToolGraph
