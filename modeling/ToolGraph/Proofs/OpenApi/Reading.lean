import ToolGraph.Proofs.Failing
import ToolGraph.Proofs.OpenApi
import ToolGraph.Proofs.Schema
import ToolGraph.Proofs.Showable

/-!
What is read of a description. The schemas of the bodies have the properties that the description hands on
to its parts.
-/
namespace ToolGraph.OpenApi
open Value

/-- A property of data that what is read of it has too. The schema that a check lets through keeps it, and
data without a text is refused where the property allows for it. -/
structure Carried (holds : Value → Prop) (kind : Refusal → Prop) : Prop where
  hereditary : Hereditary holds
  schema : ∀ {data fields}, holds data → Schema.table Schema.any data = .valid fields →
    holds (ArgumentFields.schemaOf fields)
  fault : ∀ cause, kind (.fault cause)
  huge : kind .hugeInteger ∨ ∀ value, holds value → value.isShowable = true

def Body.Has (holds : Value → Prop) (body : Body) : Prop :=
  holds (ArgumentFields.schemaOf (body.schema.getD []))

def Operation.Has (holds : Value → Prop) (operation : Operation) : Prop :=
  ∀ body ∈ operation.body, body.Has holds

theorem demand_of {showable : Bool} (known : showable = true) : demand showable = .ok () := if_pos known

theorem failsAs_demand {kind : Refusal → Prop} {showable : Bool}
    (known : kind .hugeInteger ∨ showable = true) : FailsAs kind (demand showable) := by
  cases showable with
  | true => exact .ok ()
  | false => exact .error (known.resolve_right Bool.false_ne_true)

theorem operationIssues_eq_ok {α : Type} {operation : String} {result : Checked α} {value : α} :
    operationIssues operation result.toExcept = .ok value ↔ result = .valid value := by
  cases result <;> simp [operationIssues, Checked.toExcept, Except.mapError]

theorem mem_mergeParameters {ofPath own : List Value} {parameter : Value}
    (member : parameter ∈ mergeParameters ofPath own) : parameter ∈ own ++ ofPath := by
  rcases List.mem_append.mp member with kept | new
  · exact List.mem_append.mpr (.inr (List.mem_of_mem_filter kept))
  · exact List.mem_append.mpr (.inl new)

theorem hasKey_of_isShowable {parameter : Value} (showable : parameter.isShowable = true) :
    hasKey parameter = true := by
  rw [hasKey, isShowable_getD showable rfl, isShowable_getD showable rfl]
  rfl

namespace Carried
variable {holds : Value → Prop} {kind : Refusal → Prop} (carried : Carried holds kind)
include carried

/-! ### Parts of a description -/

theorem objectOf (part : String) {value : Value} (whole : holds value) :
    Settles holds kind (OpenApi.objectOf part value) := by
  unfold OpenApi.objectOf
  split
  · exact .ok carried.hereditary.blank
  · exact .ok whole
  · exact .error (carried.fault _)

theorem objectsOf (part : String) {value : Value} (whole : holds value) :
    Settles (fun objects => ∀ object ∈ objects, holds object) kind (OpenApi.objectsOf part value) := by
  unfold OpenApi.objectsOf
  split
  · exact .ok (by simp)
  · split
    · exact .ok (carried.hereditary.list.mp whole)
    · exact .error (carried.fault _)
  · exact .error (carried.fault _)

theorem textsOf (part : String) (value : Value) : FailsAs kind (OpenApi.textsOf part value) := by
  unfold OpenApi.textsOf
  split
  · exact .ok _
  · split
    · exact .ok _
    · exact .error (carried.fault _)
  · exact .error (carried.fault _)

theorem demand {value : Value} (whole : holds value) : FailsAs kind (OpenApi.demand value.isShowable) :=
  failsAs_demand (carried.huge.imp_right fun shows => shows value whole)

theorem operationIssues {α : Type} (operation : String) (result : Except (List Issue) α) :
    FailsAs kind (OpenApi.operationIssues operation result) := .mapError fun _ => carried.fault _

/-! ### Parameters -/

theorem typeOf {schema : Value} (whole : holds schema) : holds (OpenApi.typeOf schema) := by
  have string := carried.hereditary.texts "string"
  have type : holds ((schema.member? "type").getD (.text "string")) :=
    carried.hereditary.getD whole string
  unfold OpenApi.typeOf
  split
  · split
    next types list =>
      rw [list] at type
      cases found : types.find? (fun type => !type.equals (.text "null")) with
      | none => exact string
      | some first =>
        exact carried.hereditary.list.mp type first (List.mem_of_find?_eq_some found)
    next => exact type
  · exact string

theorem readParameter (operation : String) (place : Place) (parameter : Value) {schema : Value}
    (whole : holds schema) : FailsAs kind (OpenApi.readParameter operation place parameter schema) :=
  .bind (carried.demand (carried.typeOf whole)) fun _ _ => carried.operationIssues _ _

theorem readParameters3 (operation : String) {parameters : List Value}
    (each : ∀ parameter ∈ parameters, holds parameter) :
    FailsAs kind (OpenApi.readParameters3 operation parameters) := by
  induction parameters with
  | nil => exact .ok _
  | cons parameter rest ih =>
    obtain ⟨own, others⟩ := List.forall_mem_cons.mp each
    unfold OpenApi.readParameters3
    split
    · exact ih others
    · exact ih others
    · refine .bind (carried.readParameter _ _ _ (carried.hereditary.get own _)) fun _ _ => ?_
      exact .bind (ih others) fun _ _ => .pure _

/-! ### Bodies -/

theorem has_of_checkBody {holder schema : Value} {contentType : String} {body : Body}
    (whole : holds schema) (valid : OpenApi.checkBody holder contentType schema = .valid body) :
    body.Has holds := by
  simp only [OpenApi.checkBody, Checked.seq_eq_valid, Checked.map_eq_valid,
    Checked.within_eq_valid] at valid
  obtain ⟨_, ⟨description, -, rfl⟩, fields, passed, rfl⟩ := valid
  cases fields with
  | none => exact carried.hereditary.blank
  | some fields => exact carried.schema whole (Schema.check_of_optional passed)

theorem checkBody (operation contentType : String) (holder : Value) {schema : Value}
    (whole : holds schema) : Settles (Body.Has holds) kind
      (OpenApi.operationIssues operation (OpenApi.checkBody holder contentType schema).toExcept) where
  returns _ returned := carried.has_of_checkBody whole (operationIssues_eq_ok.mp returned)
  fails := carried.operationIssues _ _

theorem readParameters2 (operation : String) (consumes : List String) {body : Option Body}
    {parameters : List Value} (each : ∀ parameter ∈ parameters, holds parameter)
    (known : ∀ own ∈ body, own.Has holds) :
    Settles (fun read => ∀ own ∈ read.2, own.Has holds) kind
      (OpenApi.readParameters2 operation consumes body parameters) := by
  induction parameters generalizing body with
  | nil => exact .ok known
  | cons parameter rest ih =>
    obtain ⟨own, others⟩ := List.forall_mem_cons.mp each
    unfold OpenApi.readParameters2
    split
    · refine .bind (carried.checkBody _ _ _ (carried.hereditary.get own _)) fun first passed => ?_
      exact ih others (by simpa using passed)
    · split
      · exact ih others known
      next place _ =>
        refine .bind (carried.readParameter _ _ _ own).settles fun first _ => ?_
        refine .bind (ih others ?_) fun read passed => .pure passed
        split
        · rintro own ⟨⟩
          exact carried.hereditary.blank
        · exact known

theorem readBody3 (operation : String) {body : Value} (whole : holds body) :
    Settles (fun read => ∀ own ∈ read, own.Has holds) kind (OpenApi.readBody3 operation body) := by
  refine .bind (carried.objectOf _ whole) fun body whole => ?_
  refine .bind (carried.objectOf _ (carried.hereditary.get whole _)) fun content whole => ?_
  split
  · exact .pure (by simp)
  next entries _ =>
    have keys : kind .hugeInteger ∨ entries.all (·.1.isShowable) = true :=
      carried.huge.imp_right fun shows => by
        simpa using fun key value member => (isShowable_map.mp (shows _ whole) _ member).1
    refine .bind (failsAs_demand keys).settles fun _ _ => ?_
    refine .bind (carried.objectOf _ (carried.hereditary.get whole _)) fun media whole => ?_
    exact .map (carried.checkBody _ _ _ (carried.hereditary.get whole _)) (by simp)
  · exact .pure (by simp)

/-! ### Operations -/

theorem readInput (defaults : Defaults) (operation : String) {value : Value}
    {parameters : List Value} (whole : holds value)
    (each : ∀ parameter ∈ parameters, holds parameter) :
    Settles (fun read => ∀ own ∈ read.2, own.Has holds) kind
      (OpenApi.readInput defaults operation value parameters) := by
  unfold OpenApi.readInput
  split
  · exact .bind (carried.textsOf _ _).settles fun own _ =>
      carried.readParameters2 _ _ each (by simp)
  · refine .bind (carried.readParameters3 _ each).settles fun read _ => ?_
    exact .bind (carried.readBody3 _ (carried.hereditary.get whole _)) fun body passed => .pure passed

theorem readOperation (defaults : Defaults) (path : Value) {ofPath : List Value}
    (method : Method) {value : Value} (whole : holds value)
    (each : ∀ parameter ∈ ofPath, holds parameter) :
    Settles (Operation.Has holds) kind (OpenApi.readOperation defaults path ofPath method value) := by
  refine .bind (carried.objectOf _ whole) fun value whole => ?_
  refine .bind (carried.objectsOf _ (carried.hereditary.get whole _)) fun own members => ?_
  have all : ∀ parameter ∈ own ++ ofPath, holds parameter := List.forall_mem_append.mpr ⟨members, each⟩
  have keys : kind .hugeInteger ∨ (own ++ ofPath).all hasKey = true :=
    carried.huge.imp_right fun shows =>
      List.all_eq_true.mpr fun parameter member => hasKey_of_isShowable (shows _ (all parameter member))
  refine .bind (failsAs_demand keys).settles fun _ _ => ?_
  refine .bind (carried.readInput _ _ whole fun parameter member =>
    all parameter (mem_mergeParameters member)) fun read passed => ?_
  refine ⟨fun operation returned => ?_, carried.operationIssues _ _⟩
  have valid := operationIssues_eq_ok.mp returned
  simp only [checkOperation, Checked.seq_eq_valid, Checked.map_eq_valid] at valid
  obtain ⟨_, ⟨_, ⟨_, ⟨_, -, rfl⟩, _, -, rfl⟩, _, -, rfl⟩, _, -, rfl⟩ := valid
  exact passed

theorem readPath (defaults : Defaults) {path item : Value}
    (written : kind .hugeInteger ∨ path.isShowable = true) (whole : holds item) :
    Settles (fun operations => ∀ operation ∈ operations, operation.Has holds) kind
      (OpenApi.readPath defaults path item) := by
  refine .bind (failsAs_demand written).settles fun _ _ => ?_
  refine .bind (carried.objectOf _ whole) fun item whole => ?_
  refine .bind (carried.objectsOf _ (carried.hereditary.get whole _)) fun parameters each => ?_
  exact .mapM fun method _ => carried.readOperation _ _ _ (carried.hereditary.get whole _) each

theorem readOperations (version : Version) {spec : Value} (whole : holds spec) :
    Settles (fun operations => ∀ operation ∈ operations, operation.Has holds) kind
      (OpenApi.readOperations version spec) := by
  refine .bind (carried.textsOf _ _).settles fun consumes _ => ?_
  refine .bind (carried.objectOf _ (carried.hereditary.get whole _)) fun paths whole => ?_
  have entries : ∀ entry ∈ paths.entries,
      (kind .hugeInteger ∨ entry.1.isShowable = true) ∧ holds entry.2 := by
    cases paths with
    | map entries =>
      intro entry member
      exact ⟨carried.huge.imp_right fun shows => (isShowable_map.mp (shows _ whole) entry member).1,
        carried.hereditary.values whole entry member⟩
    | _ => simp [Value.entries]
  refine .bind (.mapM fun entry member => carried.readPath _ (entries entry member).1
    (entries entry member).2) fun operations each => .pure ?_
  simpa [List.mem_flatten] using fun operation part member => each part member operation

end Carried

end ToolGraph.OpenApi
