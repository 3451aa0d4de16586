import ToolGraph.Proofs.OpenApi.Names
import ToolGraph.Proofs.OpenApi.Upgrade

/-!
What a description gives for an operation, and what is read of it. The parameters of an operation are those of
the merged list that go into a request on their own, one for each and in the same order. Both versions have a
body as well: one that the request brings, or in version 2 one that is made of some of the parameters.
-/
namespace ToolGraph.OpenApi

/-- What a description gives for the body of a request. -/
structure GivenBody where
  /-- The data that says whether the body is required. -/
  holder : Value
  contentType : String
  schema : Value

def bodyAmong? (types : List String) (parameters : List Value) : Option GivenBody :=
  match (parameters.filter isBody).getLast? with
  | some data => some ⟨data, pickContentType types, data.get "schema"⟩
  | none =>
    if parameters.any (placeOf? · == some .form) then some ⟨.null, formType types, .null⟩ else none

def requestBody? (body : Value) : Option GivenBody :=
  let content := body.get "content"
  let contentType := pickContentType (content.entries.map (·.1.display))
  if content.entries.isEmpty then none
  else some ⟨body, contentType, (content.get contentType).get "schema"⟩

def givenBody? (defaults : Defaults) (value : Value) (parameters : List Value) : Option GivenBody :=
  match defaults.version with
  | .two => bodyAmong? (typesOf defaults.consumes value) parameters
  | .three => requestBody? (value.get "requestBody")

/-- What a description gives for an operation. -/
structure Declaration where
  path : Value
  method : Method
  /-- The parameters of the path that the operation does not replace, then its own. -/
  parameters : List Value
  body : Option GivenBody

def Declaration.of (defaults : Defaults) (path item : Value) (method : Method) : Declaration :=
  let value := item.get method.name
  let parameters :=
    mergeParameters (itemsOf (item.get "parameters")) (itemsOf (value.get "parameters"))
  { path, method, parameters, body := givenBody? defaults value parameters }

/-- The operations that a description gives: its paths in their order, and the methods of each in theirs. -/
def declarations (version : Version) (spec : Value) : List Declaration :=
  (spec.get "paths").entries.flatMap fun entry =>
    (Method.all.filter fun method => !(entry.2.get method.name).isNull).map
      (.of ⟨version, textsIn (spec.get "consumes")⟩ entry.1 entry.2)

/-- A parameter that goes into a request on its own, and not as a body. -/
def isArgument (version : Version) (data : Value) : Bool :=
  match version, placeOf? data with
  | _, none => false
  | .three, some .form => false
  | _, some _ => true

def typed (version : Version) (data : Value) : Value :=
  match version with
  | .two => data
  | .three => data.get "schema"

def IsNamed (data : Value) (name : String) : Prop :=
  Schema.text ((data.member? "name").getD (.text "")) = .valid name

structure IsRead (version : Version) (data : Value) (parameter : Parameter) : Prop where
  name : IsNamed data parameter.name
  place : placeOf? data = some parameter.place
  required : parameter.required = (parameter.place == .path || (data.get "required").isPresent)
  description : Schema.optional Schema.text (data.get "description") = .valid parameter.description
  typeName : parameter.typeName = (typeOf (typed version data)).display

/-- The body is read of what the description gives. -/
structure GivenBody.Reads (given : GivenBody) (body : Body) : Prop where
  required : body.required = (given.holder.get "required").isPresent
  contentType : body.contentType = given.contentType
  schema : Schema.optional (Schema.table Schema.any) given.schema = .valid body.schema

/-- The operation is read of what the description gives. -/
structure Declaration.Reads (version : Version) (declaration : Declaration) (operation : Operation) :
    Prop where
  path : Schema.text declaration.path = .valid operation.path
  method : operation.method = declaration.method
  parameters : List.Forall₂ (IsRead version) (declaration.parameters.filter (isArgument version))
    operation.parameters
  body : Option.Rel GivenBody.Reads declaration.body operation.body

/-! ### Parameters -/

theorem isArgument_of_ne {version : Version} {data : Value} {place : Place}
    (known : placeOf? data = some place) (other : place ≠ .form) : isArgument version data = true := by
  cases version <;> cases place <;> simp_all [isArgument]

theorem isRead_readParameter {version : Version} {operation : String} {place : Place} {data : Value}
    {parameter : Parameter} (known : placeOf? data = some place)
    (read : readParameter operation place data (typed version data) = .ok parameter) :
    IsRead version data parameter := by
  obtain ⟨_, -, read⟩ := bind_eq_ok.mp read
  have valid := operationIssues_eq_ok.mp read
  simp only [checkParameter, Checked.seq_eq_valid, Checked.map_eq_valid, Checked.within_eq_valid] at valid
  obtain ⟨_, ⟨name, text, rfl⟩, description, about, rfl⟩ := valid
  exact ⟨text, known, rfl, about, rfl⟩

theorem isRead_readParameters3 {operation : String} {items : List Value} {parameters : List Parameter}
    (read : readParameters3 operation items = .ok parameters) :
    List.Forall₂ (IsRead .three) (items.filter (isArgument .three)) parameters := by
  induction items generalizing parameters with
  | nil =>
    obtain rfl := Except.ok.inj read
    exact .nil
  | cons data items ih =>
    rw [readParameters3] at read
    split at read
    next known => simpa [isArgument, known] using ih read
    next known => simpa [isArgument, known] using ih read
    next place other known =>
      obtain ⟨first, own, read⟩ := bind_eq_ok.mp read
      obtain ⟨others, rest, same⟩ := bind_eq_ok.mp read
      obtain rfl := pure_eq_ok.mp same
      rw [List.filter_cons_of_pos (isArgument_of_ne known other)]
      exact .cons (isRead_readParameter known own) (ih rest)

theorem placeOf?_body {data : Value} (body : data.get "in" = .text "body") : placeOf? data = none := by
  have known : data.member? "in" = some (.text "body") := by
    unfold Value.get at body
    cases found : data.member? "in" <;> simp_all
  rw [placeOf?, known]
  rfl

/-! ### Bodies -/

theorem GivenBody.reads_checkBody {holder schema : Value} {contentType : String} {body : Body}
    (valid : checkBody holder contentType schema = .valid body) :
    GivenBody.Reads ⟨holder, contentType, schema⟩ body := by
  simp only [checkBody, Checked.seq_eq_valid, Checked.map_eq_valid, Checked.within_eq_valid] at valid
  obtain ⟨_, ⟨description, -, rfl⟩, entries, table, rfl⟩ := valid
  exact ⟨rfl, rfl, table⟩

/-- The body that version 2 has read after some parameters: the last one among them, else the one from before,
else that of a form. -/
def IsBodyAfter (types : List String) (before : Option Body) (parameters : List Value)
    (body : Option Body) : Prop :=
  match (parameters.filter isBody).getLast? with
  | some data => ∃ own, body = some own ∧
      GivenBody.Reads ⟨data, pickContentType types, data.get "schema"⟩ own
  | none => body = before.or
      (if parameters.any (placeOf? · == some .form) then some { contentType := formType types } else none)

section following
variable {types : List String} {before body : Option Body} {data : Value} {items : List Value}

theorem isBodyAfter_cons_of_isBody {own : Body} (whole : isBody data = true)
    (reads : GivenBody.Reads ⟨data, pickContentType types, data.get "schema"⟩ own)
    (after : IsBodyAfter types (some own) items body) : IsBodyAfter types before (data :: items) body := by
  unfold IsBodyAfter at after ⊢
  rw [List.filter_cons_of_pos whole, List.getLast?_cons]
  split at after
  next last known =>
    rw [known]
    exact after
  next none =>
    rw [none]
    exact ⟨own, after, reads⟩

theorem isBodyAfter_cons (other : isBody data = false) :
    IsBodyAfter types before (data :: items) body ↔
      IsBodyAfter types (if placeOf? data = some .form ∧ before.isNone then
        some { contentType := formType types } else before) items body := by
  unfold IsBodyAfter
  rw [List.filter_cons_of_neg (by simp [other])]
  split
  next => rfl
  next => cases before <;> by_cases form : placeOf? data = some .form <;> simp [form]

end following

theorem isRead_readParameters2 {operation : String} {types : List String} {before : Option Body}
    {items : List Value} {parameters : List Parameter} {body : Option Body}
    (read : readParameters2 operation types before items = .ok (parameters, body)) :
    List.Forall₂ (IsRead .two) (items.filter (isArgument .two)) parameters ∧
      IsBodyAfter types before items body := by
  induction items generalizing before parameters with
  | nil =>
    obtain ⟨rfl, rfl⟩ := Prod.mk.inj (Except.ok.inj read)
    exact ⟨.nil, by simp [IsBodyAfter]⟩
  | cons data items ih =>
    rw [readParameters2] at read
    split at read
    next whole =>
      obtain ⟨own, valid, rest⟩ := bind_eq_ok.mp read
      obtain ⟨each, after⟩ := ih rest
      rw [List.filter_cons_of_neg (by simp [isArgument, placeOf?_body whole])]
      refine ⟨each, isBodyAfter_cons_of_isBody (by simp [isBody, whole]) ?_ after⟩
      exact GivenBody.reads_checkBody (operationIssues_eq_ok.mp valid)
    next other =>
      rw [isBodyAfter_cons (Bool.eq_false_iff.mpr fun whole => other (get_of_isBody whole))]
      split at read
      next known =>
        obtain ⟨each, after⟩ := ih read
        rw [List.filter_cons_of_neg (by simp [isArgument, known])]
        exact ⟨each, by simpa [known] using after⟩
      next place known =>
        obtain ⟨first, own, read⟩ := bind_eq_ok.mp read
        obtain ⟨⟨others, last⟩, rest, paired⟩ := bind_eq_ok.mp read
        obtain ⟨rfl, rfl⟩ := Prod.mk.inj (pure_eq_ok.mp paired)
        obtain ⟨each, after⟩ := ih rest
        rw [List.filter_cons_of_pos (by simp [isArgument, known])]
        exact ⟨.cons (isRead_readParameter known own) each, by simpa [known] using after⟩

theorem reads_bodyAmong? {types : List String} {parameters : List Value} {body : Option Body}
    (after : IsBodyAfter types none parameters body) :
    Option.Rel GivenBody.Reads (bodyAmong? types parameters) body := by
  unfold IsBodyAfter at after
  unfold bodyAmong?
  split at after
  next =>
    obtain ⟨own, rfl, reads⟩ := after
    exact .some reads
  next =>
    rw [after, Option.none_or]
    split
    next => exact .some ⟨rfl, rfl, rfl⟩
    next => exact .none

theorem reads_readBody3 {operation : String} {value : Value} {body : Option Body}
    (read : readBody3 operation value = .ok body) :
    Option.Rel GivenBody.Reads (requestBody? value) body := by
  obtain ⟨object, known, read⟩ := bind_eq_ok.mp read
  obtain ⟨content, inner, read⟩ := bind_eq_ok.mp read
  rw [get_objectOf known] at inner
  simp only [requestBody?, ← get_objectOf inner, ← entries_objectOf inner]
  split at read
  next =>
    obtain rfl := pure_eq_ok.mp read
    exact .none
  next entries some =>
    obtain ⟨_, -, read⟩ := bind_eq_ok.mp read
    obtain ⟨media, picked, read⟩ := bind_eq_ok.mp read
    obtain ⟨own, valid, rfl⟩ := map_eq_ok.mp read
    have reads := GivenBody.reads_checkBody (operationIssues_eq_ok.mp valid)
    rw [get_objectOf picked] at reads
    rw [if_neg (by simpa [Value.entries] using some)]
    exact .some ⟨reads.required.trans (by rw [get_objectOf known]), reads.contentType, reads.schema⟩
  next noEntries noMap =>
    obtain rfl := pure_eq_ok.mp read
    cases content with
    | map entries => exact absurd rfl (noMap entries)
    | _ => exact .none

/-! ### Operations -/

theorem textsIn_of_textsOf {part : String} {value : Value} {texts : List String}
    (known : textsOf part value = .ok texts) : textsIn value = texts := by
  unfold textsOf at known
  split at known
  next => exact Except.ok.inj known
  next =>
    split at known
    next => exact Except.ok.inj known
    next => cases known
  next => cases known

theorem reads_readInput {defaults : Defaults} {operation : String} {value : Value} {items : List Value}
    {parameters : List Parameter} {body : Option Body}
    (read : readInput defaults operation value items = .ok (parameters, body)) :
    List.Forall₂ (IsRead defaults.version) (items.filter (isArgument defaults.version)) parameters ∧
      Option.Rel GivenBody.Reads (givenBody? defaults value items) body := by
  obtain ⟨version, consumes⟩ := defaults
  cases version with
  | two =>
    obtain ⟨own, given, read⟩ := bind_eq_ok.mp read
    obtain ⟨each, after⟩ := isRead_readParameters2 read
    rw [← textsIn_of_textsOf given] at after
    exact ⟨each, reads_bodyAmong? after⟩
  | three =>
    obtain ⟨own, each, rest⟩ := bind_eq_ok.mp read
    obtain ⟨found, brought, same⟩ := bind_eq_ok.mp rest
    obtain ⟨rfl, rfl⟩ := Prod.mk.inj (pure_eq_ok.mp same)
    exact ⟨isRead_readParameters3 each, reads_readBody3 brought⟩

theorem givenBody?_objectOf {part : String} {value object : Value} (known : objectOf part value = .ok object)
    (defaults : Defaults) (items : List Value) :
    givenBody? defaults object items = givenBody? defaults value items := by
  simp only [givenBody?, typesOf, get_objectOf known]

namespace Declaration

theorem reads_readOperation {defaults : Defaults} {path item : Value} {ofPath : List Value} {method : Method}
    {operation : Operation} (listed : itemsOf (item.get "parameters") = ofPath)
    (read : readOperation defaults path ofPath method (item.get method.name) = .ok operation) :
    (Declaration.of defaults path item method).Reads defaults.version operation := by
  obtain ⟨object, known, read⟩ := bind_eq_ok.mp read
  obtain ⟨own, given, read⟩ := bind_eq_ok.mp read
  obtain ⟨_, -, read⟩ := bind_eq_ok.mp read
  obtain ⟨⟨parameters, body⟩, input, read⟩ := bind_eq_ok.mp read
  have valid := operationIssues_eq_ok.mp read
  simp only [checkOperation, Checked.seq_eq_valid, Checked.map_eq_valid,
    Checked.within_eq_valid] at valid
  obtain ⟨_, ⟨_, ⟨_, ⟨text, written, rfl⟩, _, -, rfl⟩, _, -, rfl⟩, _, -, rfl⟩ := valid
  obtain ⟨each, brought⟩ := reads_readInput input
  rw [get_objectOf known] at given
  rw [givenBody?_objectOf known] at brought
  rw [← listed, ← itemsOf_of_objectsOf given] at each brought
  exact ⟨written, rfl, each, brought⟩

theorem reads_readPath {defaults : Defaults} {path item : Value} {operations : List Operation}
    (read : readPath defaults path item = .ok operations) :
    List.Forall₂ (Reads defaults.version)
      ((Method.all.filter fun method => !(item.get method.name).isNull).map (.of defaults path item))
      operations := by
  obtain ⟨_, -, read⟩ := bind_eq_ok.mp read
  obtain ⟨object, known, read⟩ := bind_eq_ok.mp read
  obtain ⟨parameters, given, read⟩ := bind_eq_ok.mp read
  simp only [get_objectOf known] at read given
  exact List.forall₂_map_left_iff.mpr ((mapM_eq_ok.mp read).imp fun method operation known =>
    reads_readOperation (itemsOf_of_objectsOf given) known)

theorem reads_readOperations {version : Version} {spec : Value} {operations : List Operation}
    (read : readOperations version spec = .ok operations) :
    List.Forall₂ (Reads version) (declarations version spec) operations := by
  obtain ⟨consumes, given, read⟩ := bind_eq_ok.mp read
  obtain ⟨paths, object, read⟩ := bind_eq_ok.mp read
  obtain ⟨parts, each, flat⟩ := bind_eq_ok.mp read
  obtain rfl := pure_eq_ok.mp flat
  rw [declarations, ← entries_objectOf object, textsIn_of_textsOf given, List.flatMap_def]
  refine List.rel_flatten (List.forall₂_map_left_iff.mpr ?_)
  exact (mapM_eq_ok.mp each).imp fun entry part known => reads_readPath known

end Declaration

theorem Declaration.Reads.filter {version : Version} {declaration : Declaration} {operation : Operation}
    (reads : declaration.Reads version operation) {place : Place} (other : place ≠ .form) :
    List.Forall₂ (IsRead version) (declaration.parameters.filter (placeOf? · == some place))
      (operation.parameters.filter (·.place == place)) := by
  have taken : (declaration.parameters.filter (isArgument version)).filter (placeOf? · == some place) =
      declaration.parameters.filter (placeOf? · == some place) := by
    rw [List.filter_filter]
    refine List.filter_congr fun data _ => Bool.and_eq_left_iff_imp.mpr fun same => ?_
    exact isArgument_of_ne (beq_iff_eq.mp same) other
  rw [← taken]
  refine List.rel_filter (fun data parameter read => ?_) reads.parameters
  simp [read.place]

theorem Declaration.Reads.map_contentType {version : Version} {declaration : Declaration}
    {operation : Operation} (reads : declaration.Reads version operation) {α : Type} (f : String → α) :
    operation.body.map (fun body => f body.contentType) =
      declaration.body.map (fun given => f given.contentType) := by
  have body := reads.body
  generalize declaration.body = given, operation.body = own at body
  cases body with
  | some body => exact congrArg (some ∘ f) body.contentType
  | none => rfl

/-! ### Tools -/

structure IsToolOf (server : List Char) (operation : Operation) (tool : Tool) : Prop where
  arguments : tool.arguments = (ArgumentFields.ofOperation operation).schema?
  instructions : tool.instructions = OpenApi.instructions operation server

theorem isToolOf_operationTools {context : Context} {address : List Char} {line : Nat} {names : List String}
    {operations : List Operation} (length : names.length = operations.length) :
    List.Forall₂ (IsToolOf address) operations
      (operationTools context address line (names.zip operations)) := by
  induction names generalizing line operations with
  | nil =>
    cases operations with
    | nil => exact .nil
    | cons => simp at length
  | cons name names ih =>
    cases operations with
    | nil => simp at length
    | cons operation operations => exact .cons ⟨rfl, rfl⟩ (ih (by simpa using length))

theorem exists_operationTools {document : Value} {version : Version} {location workingDir model : String}
    {found : List Tool} (adapted : tools document version location workingDir model = .ok found) :
    ∃ spec description root own, inline document = .ok spec ∧
      Description.read document version location = .ok description ∧ found = root :: own ∧
      List.Forall₂ (fun declaration tool => ∃ operation, declaration.Reads version operation ∧
        IsToolOf description.server operation tool) (declarations version spec) own := by
  obtain ⟨description, read, rfl⟩ := exists_description adapted
  obtain ⟨spec, inlined, operations, -⟩ := reads_operations read
  have named := named_assignNames location description.operations
  exact ⟨spec, description, _, _, inlined, read, rfl,
    forall₂_comp (Declaration.reads_readOperations operations) (isToolOf_operationTools named.1)⟩

end ToolGraph.OpenApi
