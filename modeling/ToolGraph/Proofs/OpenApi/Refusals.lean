import ToolGraph.Proofs.OpenApi.Reading

/-!
How descriptions are refused. A failure is one of the description and names its location, apart from
few faults that come through as they are.
-/
namespace ToolGraph.OpenApi
open Value

/-- A fault of the description, not a number too long to be shown. -/
def Refusal.IsFault (refusal : Refusal) : Prop := ∃ cause, refusal = .fault cause

open Refusal

/-! ### Descriptions with texts -/

theorem carried_isShowable : Carried (fun value => value.isShowable = true) IsFault where
  hereditary := hereditary_isShowable
  schema := by
    intro data fields showable table
    refine isShowable_map.mpr fun entry member => ?_
    obtain ⟨⟨name, value⟩, known, rfl⟩ := List.mem_map.mp member
    obtain ⟨entries, rfl⟩ := Schema.exists_map_of_table table
    obtain ⟨entry, inside, same⟩ := Schema.mem_of_table_eq_valid table known
    exact ⟨rfl, Checked.valid.inj same ▸ (isShowable_map.mp showable entry inside).2⟩
  fault _ := ⟨_, rfl⟩
  huge := .inr fun _ => id

theorem hasNames_of_isShowable {body : Body} (showable : body.Has (fun value => value.isShowable = true)) :
    ArgumentFields.hasNames body = true := by
  refine Bool.or_eq_true_iff.mpr (.inr (List.all_eq_true.mpr fun name member => ?_))
  unfold ArgumentFields.requiredNames at member
  split at member
  next names _ list =>
    have required := isShowable_get showable "required"
    rw [list] at required
    exact isShowable_list.mp required name member
  next => simp at member

/-! ### The address of the server -/

theorem failsAs_textOr (fallback : String) {value : Value} (showable : value.isShowable = true) :
    FailsAs IsFault (textOr fallback value) :=
  .bind (carried_isShowable.demand showable) fun _ _ => .pure _

theorem failsAs_fillPiece {choices : Value} (showable : choices.isShowable = true) (piece : Piece) :
    FailsAs IsFault (fillPiece choices piece) := by
  unfold fillPiece
  split
  · exact .ok _
  next name =>
    have definition := carried_isShowable.objectOf s!"server variable '{String.ofList name}'"
      (isShowable_get showable (String.ofList name))
    refine .bind definition.fails fun object read => ?_
    split
    next known =>
      exact .bind (carried_isShowable.demand (isShowable_of_member? (definition.returns _ read) known))
        fun _ _ => .pure _
    next => exact .pure _

theorem failsAs_serverText {spec : Value} (showable : spec.isShowable = true) :
    FailsAs IsFault (serverText spec) := by
  have servers := carried_isShowable.objectsOf "servers" (isShowable_get showable "servers")
  refine .bind servers.fails fun list read => ?_
  have server : (list.headD (.map [])).isShowable = true := by
    cases list with
    | nil => exact isShowable_map.mpr (by simp)
    | cons server others => exact servers.returns _ read server List.mem_cons_self
  have choices := carried_isShowable.objectOf "servers[0].variables" (isShowable_get server "variables")
  refine .bind choices.fails fun object read => ?_
  refine .bind (failsAs_textOr _ (isShowable_get server _)) fun template _ => ?_
  exact .bind (.mapM fun piece _ => failsAs_fillPiece (choices.returns _ read) piece)
    fun _ _ => .pure _

/-! ### The description -/

/-- The faults of a document that come through as they are. -/
inductive Leaks (exhausts : Value → Bool) (document : Value) (version : Version) (location : String) :
    Fault → Prop where
  /-- The root is a reference to data that is no object. -/
  | noMembers {spec : Value} (inlined : inline document = .ok spec) (other : spec.isMap = false) :
      Leaks exhausts document version location (.shape (.noMembers spec.kindName))
  /-- The relative address of the server cannot be seen from the description. -/
  | relative {spec : Value} {url : List Char} {error : UrlError} (three : version = .three)
      (inlined : inline document = .ok spec) (server : serverText spec = .ok url)
      (web : Location.isUrl location.toList = true) (inside : Location.isUrl url = false)
      (malformed : Url.join location.toList url = .error error) :
      Leaks exhausts document version location (.url error)
  /-- The location of the description is no URL, though it starts like one. -/
  | location {error : UrlError} (two : version = .two) (web : Location.isUrl location.toList = true)
      (malformed : Url.split location.toList [] = .error error) :
      Leaks exhausts document version location (.url error)
  /-- A number in the document has too many digits to be shown. -/
  | hugeInteger (long : document.isShowable = false) :
      Leaks exhausts document version location (.json .hugeInteger)
  /-- Data lies too deep for the stack, or references lead on to references too often. -/
  | depth (deep : exhausts document = true) : Leaks exhausts document version location .exhausted

inductive Refused (exhausts : Value → Bool) (document : Value) (version : Version) (location : String) :
    Error → Prop where
  | conversion (fault : ConversionFault) :
      Refused exhausts document version location (.conversion location fault)
  | leak {fault : Fault} (leaks : Leaks exhausts document version location fault) :
      Refused exhausts document version location (.bare fault)

section reading
variable {exhausts : Value → Bool} {document : Value} {version : Version} {location : String}

theorem failsAs_reading {α : Type} {result : Except Refusal α}
    (fails : document.isShowable = true → FailsAs IsFault result) :
    FailsAs (Refused exhausts document version location) (reading location result) := by
  cases result with
  | ok value => exact .ok value
  | error refusal =>
    refine .error ?_
    cases refusal with
    | fault cause => exact .conversion cause
    | hugeInteger =>
      refine .leak (.hugeInteger (Bool.eq_false_iff.mpr fun showable => ?_))
      obtain ⟨cause, impossible⟩ := fails showable _ rfl
      cases impossible

theorem failsAs_malformedUrl {α : Type} {result : Except UrlError α}
    (known : ∀ error, result = .error error → Leaks exhausts document version location (.url error)) :
    FailsAs (Refused exhausts document version location) (malformedUrl result) := by
  cases result with
  | ok value => exact .ok value
  | error error => exact .error (.leak (known error rfl))

theorem failsAs_address3 {spec : Value} (inlined : inline document = .ok spec) :
    FailsAs (Refused exhausts document .three location) (address3 spec location) := by
  refine .bind (failsAs_reading fun showable =>
    failsAs_serverText (isShowable_inline showable inlined)) fun url read => ?_
  have server : serverText spec = .ok url := mapError_eq_ok.mp read
  split
  next relative =>
    obtain ⟨inside, web⟩ := Bool.and_eq_true_iff.mp relative
    refine .bind (failsAs_malformedUrl fun error malformed => ?_) fun _ _ => .pure _
    exact .relative rfl inlined server web (by simpa using inside) malformed
  next => exact .bind (.pure _) fun _ _ => .pure _

theorem failsAs_address2 {spec : Value} (inlined : inline document = .ok spec) :
    FailsAs (Refused exhausts document .two location) (address2 spec location) := by
  have whole : document.isShowable = true → spec.isShowable = true :=
    fun showable => isShowable_inline showable inlined
  refine .bind (failsAs_reading fun showable =>
    failsAs_textOr _ (isShowable_get (whole showable) _)) fun basePath _ => ?_
  have rest : ∀ scheme ownHost : List Char, FailsAs (Refused exhausts document .two location) (do
      let schemes ← reading location (textsOf "schemes" (spec.get "schemes"))
      let host ← reading location (textOr (String.ofList ownHost) (spec.get "host"))
      if host.isEmpty then return dropSlashes basePath.toList
      let scheme := (schemes.head?.map String.toList).getD scheme
      return dropSlashes (scheme ++ "://".toList ++ host.toList ++ basePath.toList)) := by
    intro scheme ownHost
    refine .bind (failsAs_reading fun _ => carried_isShowable.textsOf _ _) fun schemes _ => ?_
    refine .bind (failsAs_reading fun showable =>
      failsAs_textOr _ (isShowable_get (whole showable) _)) fun host _ => ?_
    split <;> exact .pure _
  split
  next web =>
    refine .bind (failsAs_malformedUrl fun error malformed => ?_)
      fun url _ => .bind (.pure _) fun parts _ => rest _ _
    exact .location rfl web malformed
  next => exact .bind (.pure _) fun parts _ => rest _ _

theorem failsAs_address {spec : Value} (inlined : inline document = .ok spec) :
    FailsAs (Refused exhausts document version location) (address version spec location) := by
  cases version with
  | two => exact failsAs_address2 inlined
  | three => exact failsAs_address3 inlined

theorem failsAs_read (exhausts : Value → Bool) (document : Value) (version : Version) (location : String) :
    FailsAs (Refused exhausts document version location) (Description.read document version location) := by
  refine .bind (.mapError fun fault => .conversion fault) fun spec read => ?_
  have inlined : inline document = .ok spec := mapError_eq_ok.mp read
  have whole : document.isShowable = true → spec.isShowable = true :=
    fun showable => isShowable_inline showable inlined
  have operations := fun showable => carried_isShowable.readOperations version (whole showable)
  split
  next other => exact .throw_bind (.leak (.noMembers inlined (by simpa using other))) _
  refine .bind (failsAs_reading fun showable => (operations showable).fails)
    fun found read => ?_
  split
  · exact .throw_bind (.conversion _) _
  refine .bind (failsAs_address inlined) fun server _ => ?_
  have about : document.isShowable = true → Settles (fun info => info.isShowable = true) IsFault
      (objectOf "info" (spec.get "info")) :=
    fun showable => carried_isShowable.objectOf _ (isShowable_get (whole showable) _)
  refine .bind (failsAs_reading fun showable => (about showable).fails) fun info known => ?_
  have text : ∀ (fallback key : String), FailsAs (Refused exhausts document version location)
      (reading location (textOr fallback (info.get key))) := fun fallback key =>
    failsAs_reading fun showable => failsAs_textOr _
      (isShowable_get ((about showable).returns _ (mapError_eq_ok.mp known)) key)
  refine .bind (text _ _) fun title _ => .bind (text _ _) fun description _ => ?_
  refine .bind (failsAs_reading fun showable => failsAs_demand (.inr ?_)) fun _ _ => .pure _
  have each := (operations showable).returns _ (mapError_eq_ok.mp read)
  simpa [Option.all_eq_true] using fun operation member body own =>
    hasNames_of_isShowable (each operation member body own)

/-- A description is refused with its location, or its tools are found, apart from faults that leak. -/
theorem adapts_or_refuses (exhausts : Value → Bool) (document : Value) (version : Version)
    (location workingDir model : String) :
    let result := toolsWithin exhausts document version location workingDir model
    (∃ found, result = .ok found ∧ found ≠ []) ∨
      (∃ fault, result = .error (.conversion location fault)) ∨
      ∃ fault, result = .error (.bare fault) ∧ Leaks exhausts document version location fault := by
  intro result
  cases held : exhausts document with
  | true =>
    have deep : result = .error (.bare .exhausted) := if_pos held
    exact .inr (.inr ⟨_, deep, .depth held⟩)
  | false =>
    have made : result = _ := toolsWithin_eq held version location workingDir model
    have fails := failsAs_read exhausts document version location
    cases read : Description.read document version location with
    | ok description =>
      rw [read] at made
      exact .inl ⟨_, made, List.cons_ne_nil _ _⟩
    | error error =>
      rw [read] at made
      cases fails error read with
      | conversion fault => exact .inr (.inl ⟨fault, made⟩)
      | leak leaks => exact .inr (.inr ⟨_, made, leaks⟩)

/-- A root that is a reference to data that is no object always leaks. -/
theorem tools_of_noMembers {spec : Value} (inlined : inline document = .ok spec)
    (other : spec.isMap = false) (workingDir model : String) :
    tools document version location workingDir model =
      .error (.bare (.shape (.noMembers spec.kindName))) := by
  simp only [tools_eq, Description.read, refused, inlined, Except.mapError, bind, Except.bind, other]
  rfl

example : tools (.map [(.text "$ref", .text "#/paths"), (.text "paths", .list [])]) .three
    "/api.json" "/" "" = .error (.bare (.shape (.noMembers "list"))) := by rfl

end reading

end ToolGraph.OpenApi
