import ToolGraph.Proofs.OpenApi.Refusals

/-!
How the operations of a description are addressed. Names that are alike up to case are told apart by
the number of the operation; this fails where an earlier operation has the numbered name already, and
then the name leads to the later operation.
-/
namespace ToolGraph.OpenApi
open Entries Text

/-! ### Names -/

/-- The name of an operation that comes after those with the names `before`. -/
def nameAfter (before : List String) (operation : Operation) : String :=
  if lower (operationName operation) ∈ before.map lower then
    s!"{operationName operation}_{before.length + 2}"
  else operationName operation

def Named (operations : List Operation) (names : List String) : Prop :=
  names.length = operations.length ∧
    ∀ place operation, operations[place]? = some operation →
      names[place]? = some (nameAfter (names.take place) operation)

def Separable (operations : List Operation) (names : List String) : Prop :=
  ∀ place operation, operations[place]? = some operation →
    lower (operationName operation) ∈ (names.take place).map lower →
      lower s!"{operationName operation}_{place + 2}" ∉ (names.take place).map lower

def IsLast (names : List String) (place : Nat) (name : String) : Prop :=
  names[place]? = some name ∧ lower name ∉ (names.drop (place + 1)).map lower

theorem operationName_ne_empty (operation : Operation) : operationName operation ≠ "" := by
  unfold operationName
  simp only
  split
  next given =>
    intro empty
    simp [empty] at given
  next =>
    intro empty
    have length := congrArg String.length empty
    simp at length

theorem nameAfter_ne_empty (before : List String) (operation : Operation) :
    nameAfter before operation ≠ "" := by
  unfold nameAfter
  split
  next =>
    intro empty
    have length := congrArg String.length empty
    simp at length
  next => exact operationName_ne_empty operation

theorem Named.exists_operation {operations : List Operation} {names : List String}
    (named : Named operations names) {place : Nat} {name : String}
    (given : names[place]? = some name) :
    ∃ operation, operations[place]? = some operation ∧
      name = nameAfter (names.take place) operation := by
  obtain ⟨below, -⟩ := List.getElem?_eq_some_iff.mp given
  have inside : place < operations.length := named.1 ▸ below
  have known := List.getElem?_eq_getElem inside
  exact ⟨_, known, Option.some.inj (given.symm.trans (named.2 place _ known))⟩

theorem nodup_iff_take {α : Type} {items : List α} :
    items.Nodup ↔ ∀ place item, items[place]? = some item → item ∉ items.take place := by
  rw [List.Nodup, List.pairwise_iff_getElem]
  constructor
  · intro apart place item given member
    obtain ⟨below, rfl⟩ := List.getElem?_eq_some_iff.mp given
    obtain ⟨other, before, same⟩ := List.mem_take_iff_getElem.mp member
    exact apart other place _ below (by omega) same
  · intro fresh first second _ below before same
    refine fresh second _ (List.getElem?_eq_getElem below) ?_
    exact List.mem_take_iff_getElem.mpr ⟨first, by omega, same⟩

theorem nodup_iff_separable {operations : List Operation} {names : List String}
    (named : Named operations names) : (names.map lower).Nodup ↔ Separable operations names := by
  rw [nodup_iff_take]
  simp only [List.getElem?_map, Option.map_eq_some_iff, ← List.map_take]
  constructor
  · intro fresh place operation given taken
    have name := named.2 place operation given
    obtain ⟨below, -⟩ := List.getElem?_eq_some_iff.mp name
    have numbered : nameAfter (names.take place) operation =
        s!"{operationName operation}_{place + 2}" := by
      rw [nameAfter, if_pos taken, List.length_take_of_le (Nat.le_of_lt below)]
    exact fresh place _ ⟨_, numbered ▸ name, rfl⟩
  · rintro separable place _ ⟨name, given, rfl⟩
    obtain ⟨below, -⟩ := List.getElem?_eq_some_iff.mp given
    obtain ⟨operation, known, rfl⟩ := named.exists_operation given
    unfold nameAfter
    split
    next taken =>
      rw [List.length_take_of_le (Nat.le_of_lt below)]
      exact separable place operation known taken
    next free => exact free

section assigning
variable {location : String} {ordinal : Nat} {taken : Entries String String}

theorem names_assignNames {before : List String} {operations : List Operation}
    (known : ∀ key, key ∈ taken.keys ↔ key ∈ before.map lower)
    (counted : ordinal = before.length + 2) {place : Nat} {operation : Operation}
    (given : operations[place]? = some operation) :
    let names := (assignNames location ordinal taken operations).1
    names[place]? = some (nameAfter (before ++ names.take place) operation) := by
  induction operations generalizing ordinal taken before place with
  | nil => simp at given
  | cons first rest ih =>
    have same : (if taken.has (lower (operationName first)) then
        s!"{operationName first}_{ordinal}" else operationName first) = nameAfter before first := by
      simp only [nameAfter, has_iff, known, counted]
    simp only [assignNames, same]
    cases place with
    | zero =>
      obtain rfl := Option.some.inj given
      simp
    | succ place =>
      have later : ∀ key, key ∈ (taken.put (lower (nameAfter before first))
          (Block.idAt location ordinal)).keys ↔
          key ∈ (before ++ [nameAfter before first]).map lower := by
        intro key
        rw [mem_keys_put, known, List.map_append, List.mem_append, or_comm]
        simp
      have following : ordinal + 1 = (before ++ [nameAfter before first]).length + 2 := by
        simp [counted]
      simpa using ih later following given

theorem named_assignNames (location : String) (operations : List Operation) :
    Named operations (assignNames location 2 [] operations).1 := by
  refine ⟨(assignNames_spec location 2 [] operations).1, fun place operation given => ?_⟩
  have none : ∀ key, key ∈ keys ([] : Entries String String) ↔ key ∈ ([] : List String).map lower := by
    simp [keys]
  exact names_assignNames none rfl given

theorem get?_assignNames_of_other {operations : List Operation} {key : String}
    (other : key ∉ (assignNames location ordinal taken operations).1.map lower) :
    (assignNames location ordinal taken operations).2.get? key = taken.get? key := by
  induction operations generalizing ordinal taken with
  | nil => rfl
  | cons first rest ih =>
    simp only [assignNames, List.map_cons, List.mem_cons, not_or] at other ⊢
    rw [ih other.2, get?_put, if_neg (Ne.symm other.1)]

theorem get?_assignNames {operations : List Operation} {place : Nat} {name : String}
    (last : IsLast (assignNames location ordinal taken operations).1 place name) :
    (assignNames location ordinal taken operations).2.get? (lower name) =
      some (Block.idAt location (ordinal + place : Nat)) := by
  induction operations generalizing ordinal taken place with
  | nil => simp [IsLast, assignNames] at last
  | cons first rest ih =>
    obtain ⟨given, last⟩ := last
    simp only [assignNames] at given last ⊢
    cases place with
    | zero =>
      obtain rfl := Option.some.inj given
      rw [get?_assignNames_of_other last, get?_put, if_pos rfl]
      rfl
    | succ place =>
      rw [ih ⟨given, last⟩, Nat.add_right_comm, Nat.add_assoc]

end assigning

/-! ### Tools -/

/-- The calls that a description has: its paths in their order, and the methods of each in theirs. -/
def calls (spec : Value) : List (Value × Method) :=
  (spec.get "paths").entries.flatMap fun entry =>
    (Method.all.filter fun method => !(entry.2.get method.name).isNull).map (entry.1, ·)

def Describes (call : Value × Method) (operation : Operation) : Prop :=
  Schema.text call.1 = .valid operation.path ∧ operation.method = call.2

theorem entries_objectOf {part : String} {value object : Value}
    (read : objectOf part value = .ok object) : object.entries = value.entries := by
  unfold objectOf at read
  split at read
  · exact Except.ok.inj read ▸ rfl
  · exact Except.ok.inj read ▸ rfl
  · cases read

theorem get_objectOf {part : String} {value object : Value}
    (read : objectOf part value = .ok object) (key : String) : object.get key = value.get key := by
  unfold objectOf at read
  split at read
  · exact Except.ok.inj read ▸ rfl
  · exact Except.ok.inj read ▸ rfl
  · cases read

theorem describes_readOperation {defaults : Defaults} {path value : Value} {ofPath : List Value}
    {method : Method} {operation : Operation}
    (read : readOperation defaults path ofPath method value = .ok operation) :
    Describes (path, method) operation := by
  obtain ⟨object, -, read⟩ := bind_eq_ok.mp read
  obtain ⟨own, -, read⟩ := bind_eq_ok.mp read
  obtain ⟨_, -, read⟩ := bind_eq_ok.mp read
  obtain ⟨input, -, read⟩ := bind_eq_ok.mp read
  have valid := operationIssues_eq_ok.mp read
  simp only [checkOperation, Checked.seq_eq_valid, Checked.map_eq_valid,
    Checked.within_eq_valid] at valid
  obtain ⟨_, ⟨_, ⟨_, ⟨text, path, rfl⟩, _, -, rfl⟩, _, -, rfl⟩, _, -, rfl⟩ := valid
  exact ⟨path, rfl⟩

theorem describes_readPath {defaults : Defaults} {path item : Value} {operations : List Operation}
    (read : readPath defaults path item = .ok operations) :
    List.Forall₂ Describes
      ((Method.all.filter fun method => !(item.get method.name).isNull).map (path, ·)) operations := by
  obtain ⟨_, -, read⟩ := bind_eq_ok.mp read
  obtain ⟨object, known, read⟩ := bind_eq_ok.mp read
  obtain ⟨parameters, -, read⟩ := bind_eq_ok.mp read
  simp only [get_objectOf known] at read
  exact List.forall₂_map_left_iff.mpr
    ((mapM_eq_ok.mp read).imp fun method operation known => describes_readOperation known)

theorem describes_readOperations {version : Version} {spec : Value} {operations : List Operation}
    (read : readOperations version spec = .ok operations) :
    List.Forall₂ Describes (calls spec) operations := by
  obtain ⟨consumes, -, read⟩ := bind_eq_ok.mp read
  obtain ⟨paths, object, read⟩ := bind_eq_ok.mp read
  obtain ⟨parts, each, flat⟩ := bind_eq_ok.mp read
  obtain rfl := pure_eq_ok.mp flat
  rw [calls, ← entries_objectOf object, List.flatMap_def]
  refine List.rel_flatten (List.forall₂_map_left_iff.mpr ?_)
  exact (mapM_eq_ok.mp each).imp fun entry part known => describes_readPath known

structure Addressed (location : String) (description : Description) (root : Tool)
    (own : List Tool) : Prop where
  ids : (root :: own).map Tool.id = idsFrom location 1 (description.operations.length + 1)
  requests : own.map Tool.instructions =
    description.operations.map (instructions · description.server)
  names : own.map Tool.name = root.tools
  named : Named description.operations root.tools
  shared : ∀ tool ∈ own, tool.localTools = root.localTools
  entry : root.localTools.get? "" = some root.id
  mapped : ∀ name ∈ root.tools, root.toolMapping.get? name = root.localTools.get? (lower name)
  leads : ∀ place name, IsLast root.tools place name →
    root.localTools.get? (lower name) = some (Block.idAt location (place + 2 : Nat))

theorem operationTools_zip {context : Context} {address : List Char} (line : Nat)
    {names : List String} {operations : List Operation} (length : names.length = operations.length) :
    (operationTools context address line (names.zip operations)).map Tool.name = names ∧
      (operationTools context address line (names.zip operations)).map Tool.instructions =
        operations.map (instructions · address) := by
  induction names generalizing line operations with
  | nil =>
    cases operations with
    | nil => exact ⟨rfl, rfl⟩
    | cons => simp at length
  | cons name names ih =>
    cases operations with
    | nil => simp at length
    | cons operation operations =>
      obtain ⟨own, requests⟩ := ih (line + 1) (by simpa using length)
      rw [List.zip_cons_cons]
      exact ⟨congrArg (name :: ·) own, congrArg (instructions operation address :: ·) requests⟩

theorem get?_localTools (description : Description) (location : String) {name : String}
    (some : name ≠ "") :
    (description.localTools location).get? (lower name) =
      (get? (assignNames location 2 [] description.operations).2 (lower name)).or
        (if lower (titleName description.title) = lower name then
          Option.some (Block.idAt location 1) else none) := by
  rw [Description.localTools, get?_put, if_neg (lower_ne_empty some).symm, get?_putNew]

theorem get?_ofPairs_map {names : List String} (value : String → String) {name : String}
    (member : name ∈ names) :
    (Entries.ofPairs (names.map fun name => (name, value name))).get? name = some (value name) := by
  have known : name ∈ keys (ofPairs (names.map fun name => (name, value name))) :=
    mem_keys_ofPairs.mpr (by simpa [keys] using member)
  obtain ⟨found, leads⟩ := mem_keys_iff.mp known
  obtain ⟨other, -, same⟩ := List.mem_map.mp (mem_of_get?_ofPairs leads)
  obtain ⟨rfl, rfl⟩ := Prod.mk.inj same
  exact leads

theorem reads_operations {document : Value} {version : Version} {location : String}
    {description : Description}
    (read : Description.read document version location = .ok description) :
    ∃ spec, inline document = .ok spec ∧
      readOperations version spec = .ok description.operations ∧ description.operations ≠ [] := by
  obtain ⟨spec, inlined, read⟩ := bind_eq_ok.mp read
  refine ⟨spec, mapError_eq_ok.mp inlined, ?_⟩
  split at read
  next => cases read
  next =>
    obtain ⟨operations, known, read⟩ := bind_eq_ok.mp read
    split at read
    next => cases read
    next some =>
      obtain ⟨server, -, read⟩ := bind_eq_ok.mp read
      obtain ⟨info, -, read⟩ := bind_eq_ok.mp read
      obtain ⟨title, -, read⟩ := bind_eq_ok.mp read
      obtain ⟨about, -, read⟩ := bind_eq_ok.mp read
      obtain ⟨_, -, read⟩ := bind_eq_ok.mp read
      obtain rfl := pure_eq_ok.mp read
      exact ⟨mapError_eq_ok.mp known, fun none => some (List.isEmpty_iff.mpr none)⟩

theorem addressed_tools (description : Description) (location workingDir model : String) :
    ∃ root own, description.tools location workingDir model = root :: own ∧
      Addressed location description root own := by
  have named := named_assignNames location description.operations
  have some : ∀ name ∈ description.names location, name ≠ "" := by
    intro name member
    obtain ⟨place, given⟩ := List.mem_iff_getElem?.mp member
    obtain ⟨operation, -, rfl⟩ := named.exists_operation given
    exact nameAfter_ne_empty _ operation
  obtain ⟨names, requests⟩ := operationTools_zip 2 named.1
  refine ⟨_, _, rfl, ?_, requests, names, named, ?_, ?_, ?_, ?_⟩
  · rw [List.map_cons, ids_operationTools, List.length_zip, Description.names, named.1, Nat.min_self,
      idsFrom_succ]
    rfl
  · exact fun tool member => (mem_operationTools member).2.2
  · exact (get?_put _ _ _ _).trans (if_pos rfl)
  · intro name member
    have taken := (assignNames_spec location 2 [] description.operations).2.1 name member
    obtain ⟨id, leads⟩ := mem_keys_iff.mp taken
    have found : (description.localTools location).get? (lower name) = Option.some id := by
      rw [get?_localTools description location (some name member), leads, Option.some_or]
    have mapped := congrArg (fun id => Option.some (Option.getD id "")) found
    exact ((get?_ofPairs_map _ member).trans mapped).trans found.symm
  · intro place name last
    have member : name ∈ description.names location := List.mem_of_getElem? last.1
    have found := get?_assignNames last
    refine (get?_localTools description location (some name member)).trans ?_
    rw [found, Option.some_or, Nat.add_comm]

theorem id_of_idsFrom {location : String} {line count place : Nat} {id : String}
    (given : (idsFrom location line count)[place]? = some id) :
    id = Block.idAt location (line + place : Nat) := by
  obtain ⟨number, counted, rfl⟩ := Option.map_eq_some_iff.mp ((List.getElem?_map ..).symm.trans given)
  obtain ⟨-, rfl⟩ := List.getElem?_eq_some_iff.mp counted
  simp

theorem isLast_of_nodup {names : List String} (distinct : (names.map lower).Nodup) {place : Nat}
    {name : String} (given : names[place]? = some name) : IsLast names place name := by
  refine ⟨given, fun later => ?_⟩
  obtain ⟨below, rfl⟩ := List.getElem?_eq_some_iff.mp given
  rw [← List.take_append_drop (place + 1) names, List.map_append, List.nodup_append] at distinct
  have earlier : names[place] ∈ names.take (place + 1) :=
    List.mem_take_iff_getElem.mpr ⟨place, by omega, rfl⟩
  exact distinct.2.2 _ (List.mem_map_of_mem earlier) _ later rfl

/-- What the adapter returns for a document that it accepts. The operations can be told apart by their
names unless a numbered name is taken as well. -/
theorem operations_addressed {document : Value} {version : Version}
    {location workingDir model : String} {found : List Tool}
    (adapted : tools document version location workingDir model = .ok found) :
    ∃ spec description root own, inline document = .ok spec ∧
      Description.read document version location = .ok description ∧
      description.operations ≠ [] ∧ List.Forall₂ Describes (calls spec) description.operations ∧
      found = root :: own ∧ Addressed location description root own ∧
      ((root.tools.map lower).Nodup ↔ Separable description.operations root.tools) ∧
      ((root.tools.map lower).Nodup → ∀ tool ∈ own,
        root.localTools.get? (lower tool.name) = some tool.id ∧
          root.toolMapping.get? tool.name = some tool.id) := by
  obtain ⟨description, read, rfl⟩ := exists_description adapted
  obtain ⟨spec, inlined, operations, some⟩ := reads_operations read
  obtain ⟨root, own, made, addressed⟩ := addressed_tools description location workingDir model
  refine ⟨spec, description, root, own, inlined, read, some, describes_readOperations operations,
    made, addressed, nodup_iff_separable addressed.named, ?_⟩
  intro distinct tool member
  obtain ⟨place, given⟩ := List.mem_iff_getElem?.mp member
  have name : root.tools[place]? = Option.some tool.name := by
    rw [← addressed.names, List.getElem?_map, given]
    rfl
  have id : tool.id = Block.idAt location (place + 2 : Nat) := by
    have ids := addressed.ids
    rw [List.map_cons, idsFrom_succ] at ids
    have own := congrArg (·[place]?) (List.cons.inj ids).2
    rw [List.getElem?_map, given] at own
    rw [Nat.add_comm place 2]
    exact id_of_idsFrom own.symm
  have leads := addressed.leads place _ (isLast_of_nodup distinct name)
  rw [addressed.mapped _ (List.mem_of_getElem? name), leads, id]
  exact ⟨rfl, rfl⟩

def described (operations : List (String × String)) : Value :=
  .map [(.text "paths", .map (operations.map fun operation =>
    (.text operation.1, .map [(.text "get", .map [(.text "operationId", .text operation.2)])])))]

theorem twins_addressed :
    ∃ root own, tools (described [("/p", "Op"), ("/q", "op")]) .three "/api.json" "/" "" =
        .ok (root :: own) ∧
      root.tools = ["Op", "op_3"] ∧
      ∀ tool ∈ own, root.localTools.get? (lower tool.name) = some tool.id ∧
        root.toolMapping.get? tool.name = some tool.id := by
  refine ⟨_, _, rfl, rfl, ?_⟩
  obtain ⟨_, _, _, _, -, -, -, -, same, -, -, leads⟩ :=
    operations_addressed (show tools (described [("/p", "Op"), ("/q", "op")]) .three "/api.json" "/" ""
      = .ok _ from rfl)
  obtain ⟨rfl, rfl⟩ := List.cons.inj same
  exact leads (by decide)

/-- The third operation gets the name that the first one has. -/
example : (tools (described [("/p", "a_4"), ("/q", "a"), ("/r", "a")]) .three "/api.json" "/" "").map
    (·.map Tool.name) = .ok ["API", "a_4", "a", "a_4"] := by rfl

end ToolGraph.OpenApi
