import ToolGraph.Proofs.Block.Grammar
import ToolGraph.Proofs.Distinct
import ToolGraph.Proofs.OpenApi.Names

/-!
The arguments of tools. Those of native and of built-in tools are JSON data; those of an artifact and of an
interface description are, where the data in them is.
-/
namespace ToolGraph
open Entries

/-! ### Native tools -/

namespace Block

theorem isJson_argumentsSchema {arguments : Entries String String} (distinct : (keys arguments).Nodup) :
    (Value.ofTable (argumentsSchema arguments)).IsJson := by
  have argument : ∀ description, (argumentSchema description).IsJson := fun description =>
    show (Value.ofTable (mapValues .text [("description", description), ("type", "string")])).IsJson from
      Value.isJson_ofTexts (show ["description", "type"].Nodup by decide)
  have properties : (Value.ofTable (mapValues argumentSchema arguments)).IsJson := by
    refine Value.isJson_ofTable.mpr ⟨by rwa [keys_mapValues], fun entry member => ?_⟩
    obtain ⟨own, -, rfl⟩ := List.mem_map.mp member
    exact argument own.2
  rw [Value.ofTable, mapValues, List.map_map] at properties
  refine Value.isJson_ofTable.mpr ⟨nodup_argumentsSchema arguments, ?_⟩
  rw [argumentsSchema, List.forall_mem_cons, List.forall_mem_singleton]
  exact ⟨properties, Value.isJson_text _⟩

theorem nodup_arguments_of_readAll {content location : String} {firstLine : Int} {blocks : List Block}
    (read : readAll content location firstLine = .ok blocks) :
    ∀ block ∈ blocks, (keys block.header.arguments).Nodup := by
  simp only [readAll_eq, firstFault] at read
  split at read
  next => cases read
  next =>
    obtain rfl := Except.ok.inj read
    intro block member
    obtain ⟨chunk, -, rfl⟩ := List.mem_map.mp member
    exact nodup_ofPairs _

theorem hasJsonArguments_of_parse {content location workingDir model : String} {firstLine : Int}
    {tools : List Tool} (parsed : parse content location workingDir model firstLine = .ok tools) :
    ∀ tool ∈ tools, tool.HasJsonArguments := by
  unfold parse at parsed
  obtain ⟨blocks, read, parsed⟩ := bind_eq_ok.mp parsed
  split at parsed
  next => exact absurd parsed throw_ne_ok
  next =>
    obtain ⟨names, -, parsed⟩ := bind_eq_ok.mp parsed
    obtain rfl := pure_eq_ok.mp parsed
    intro other member arguments given
    obtain ⟨block, known, rfl⟩ := List.mem_map.mp member
    simp only [tool] at given
    split at given
    next => simp at given
    next =>
      obtain rfl := Option.mem_some_iff.mp given
      exact isJson_argumentsSchema (nodup_arguments_of_readAll read block known)

end Block

namespace Builtin

theorem hasJsonArguments_of_find? {name : String} {tool : Tool} (found : find? name = some tool) :
    tool.HasJsonArguments := by
  obtain ⟨builtin, known, rfl⟩ := Option.map_eq_some_iff.mp found
  have distinct : all.all (fun builtin => decide (keys builtin.arguments).Nodup) = true := by decide
  intro arguments given
  obtain rfl := Option.mem_some_iff.mp given
  have own := List.all_eq_true.mp distinct builtin (List.mem_of_find?_eq_some known)
  exact Block.isJson_argumentsSchema (of_decide_eq_true own)

end Builtin

/-! ### Tables that pass a check -/

namespace Schema

theorem isJson_of_table {data : Value} {fields : Entries String Value} (plain : data.IsJson)
    (passed : table any data = .valid fields) : (Value.ofTable fields).IsJson := by
  refine Value.isJson_ofTable.mpr ⟨nodup_of_table passed, fun entry member => ?_⟩
  obtain ⟨entries, rfl⟩ := exists_map_of_table passed
  obtain ⟨own, known, same⟩ := mem_of_table_eq_valid passed member
  exact Checked.valid.inj same ▸ Value.hereditary_isJson.values plain own known

end Schema

/-! ### Interface descriptions -/

namespace OpenApi

theorem carried_isJson : Carried Value.IsJson (fun _ => True) where
  hereditary := Value.hereditary_isJson
  schema := Schema.isJson_of_table
  fault _ := trivial
  huge := .inl trivial

namespace ArgumentFields

theorem isJson_propertyOf (parameter : Parameter) : (propertyOf parameter).IsJson := by
  simp only [propertyOf]
  split
  next =>
    exact show (Value.ofTable (mapValues .text [("type", parameter.typeName)])).IsJson from
      Value.isJson_ofTexts (show ["type"].Nodup by decide)
  next =>
    exact show (Value.ofTable (mapValues .text [("description", parameter.description.getD ""),
      ("type", parameter.typeName)])).IsJson from
        Value.isJson_ofTexts (show ["description", "type"].Nodup by decide)

theorem isJson_addProperty {properties : List (Value × Value)} {name : String} {value : Value}
    (whole : (Value.map properties).IsJson) (plain : value.IsJson) :
    (Value.map (addProperty properties (.text name, value))).IsJson := by
  unfold addProperty
  split
  next => exact whole
  next missing =>
    obtain ⟨⟨names, distinct, written⟩, each⟩ := Value.isJson_map.mp whole
    have new : name ∉ names := by
      intro known
      have known : Value.text name ∈ properties.map Prod.fst := written ▸ List.mem_map_of_mem known
      obtain ⟨entry, member, same⟩ := List.mem_map.mp known
      refine missing ?_
      rw [Value.entry?, Option.isSome_map, List.find?_isSome]
      exact ⟨entry, member, Value.sameKey_text.mpr same⟩
    refine Value.isJson_map.mpr ⟨⟨names ++ [name], ?_, by simp [written]⟩, ?_⟩
    · exact List.nodup_append.mpr
        ⟨distinct, List.nodup_singleton name, by simpa using fun other known => ne_of_mem_of_not_mem known new⟩
    · rw [List.forall_mem_append, List.forall_mem_singleton]
      exact ⟨each, plain⟩

theorem isJson_addProperties {properties added : List (Value × Value)}
    (whole : (Value.map properties).IsJson) (plain : (Value.map added).IsJson) :
    (Value.map (added.foldl addProperty properties)).IsJson := by
  obtain ⟨⟨names, -, written⟩, each⟩ := Value.isJson_map.mp plain
  clear plain
  induction added generalizing names properties with
  | nil => exact whole
  | cons entry added ih =>
    obtain ⟨key, value⟩ := entry
    obtain ⟨name, names, rfl, rfl, others⟩ := List.map_eq_cons_iff.mp written.symm
    obtain ⟨own, rest⟩ := List.forall_mem_cons.mp each
    exact ih (isJson_addProperty whole own) rest names others.symm

theorem isJson_of_objectProperties? {schema : Value} {properties : List (Value × Value)}
    (plain : schema.IsJson) (found : objectProperties? schema = some properties) :
    (Value.map properties).IsJson := by
  unfold objectProperties? at found
  split at found
  next own _ given =>
    obtain rfl := Option.some.inj found
    exact given ▸ Value.hereditary_isJson.get plain "properties"
  next => cases found

theorem isJson_addBody {fields : ArgumentFields} {body : Body}
    (whole : (Value.map fields.properties).IsJson) (plain : body.Has Value.IsJson) :
    (Value.map (fields.addBody body).properties).IsJson := by
  unfold addBody
  split
  next => exact whole
  next => exact whole
  next entries _ given =>
    rw [Body.Has, given, Option.getD_some] at plain
    split
    next properties found =>
      exact isJson_addProperties whole (isJson_of_objectProperties? plain found)
    next => exact whole.putEntry _ plain

theorem isJson_ofOperation {operation : Operation} (plain : operation.Has Value.IsJson) :
    (Value.map (ofOperation operation).properties).IsJson := by
  have parameters : ∀ (parameters : List Parameter) (fields : ArgumentFields),
      (Value.map fields.properties).IsJson →
        (Value.map (parameters.foldl addParameter fields).properties).IsJson := by
    intro parameters
    induction parameters with
    | nil => exact fun _ whole => whole
    | cons parameter parameters ih =>
      exact fun fields whole => ih _ (whole.putEntry _ (isJson_propertyOf parameter))
  have start := parameters operation.parameters ⟨[], []⟩ Value.hereditary_isJson.blank
  unfold ofOperation
  cases given : operation.body with
  | none => exact start
  | some body => exact isJson_addBody start (plain body given)

theorem isJson_schema? {fields : ArgumentFields} {arguments : Entries String Value}
    (whole : (Value.map fields.properties).IsJson) (given : arguments ∈ fields.schema?) :
    (Value.ofTable arguments).IsJson := by
  have distinct := nodup_schema? given
  unfold schema? at given
  split at given
  next => simp at given
  next =>
    obtain rfl := Option.mem_some_iff.mp given
    refine Value.isJson_ofTable.mpr ⟨distinct, ?_⟩
    simp only [List.forall_mem_append, List.forall_mem_cons]
    refine ⟨⟨whole, Value.isJson_text _, by simp⟩, ?_⟩
    split
    next => simp
    next =>
      rw [List.forall_mem_singleton]
      refine Value.isJson_list.mpr fun item member => ?_
      obtain ⟨name, -, rfl⟩ := List.mem_map.mp member
      exact Value.isJson_text name

end ArgumentFields

theorem hasJsonArguments_operationTools {context : Context} {address : List Char} {line : Nat}
    {operations : List (String × Operation)}
    (plain : ∀ operation ∈ operations, operation.2.Has Value.IsJson) :
    ∀ tool ∈ operationTools context address line operations, tool.HasJsonArguments := by
  induction operations generalizing line with
  | nil => simp [operationTools]
  | cons operation rest ih =>
    obtain ⟨own, others⟩ := List.forall_mem_cons.mp plain
    refine List.forall_mem_cons.mpr ⟨fun arguments given => ?_, ih others⟩
    exact ArgumentFields.isJson_schema? (ArgumentFields.isJson_ofOperation own) given

theorem hasJsonArguments_of_tools {document : Value} {version : Version}
    {location workingDir model : String} {found : List Tool} (plain : document.IsJson)
    (adapted : tools document version location workingDir model = .ok found) :
    ∀ tool ∈ found, tool.HasJsonArguments := by
  obtain ⟨description, read, rfl⟩ := exists_description adapted
  obtain ⟨spec, inlined, operations, -⟩ := reads_operations read
  have whole := holds_inline Value.hereditary_isJson plain inlined
  have each := (carried_isJson.readOperations version whole).returns _ operations
  refine List.forall_mem_cons.mpr ⟨by simp [rootTool, Context.tool, Tool.named, Tool.HasJsonArguments], ?_⟩
  exact hasJsonArguments_operationTools fun operation member => each _ (List.of_mem_zip member).2

end OpenApi

/-! ### Artifacts -/

namespace Artifact
open Schema

theorem hasJsonArguments_of_readTool {ids : List Value} {entry : Value} {tool : Tool}
    (plain : entry.IsJson) (read : readTool ids entry = .ok tool) : tool.HasJsonArguments := by
  unfold readTool at read
  obtain ⟨mapping, -, read⟩ := bind_eq_ok.mp read
  obtain ⟨locals, -, read⟩ := bind_eq_ok.mp read
  simp only at read
  split at read
  next passed =>
    obtain rfl := pure_eq_ok.mp read
    obtain ⟨-, -, -, -, -, -, -, -, arguments, -⟩ := Tool.check_eq_valid.mp passed
    generalize put : Value.putEntry _ _ _ = entries at arguments
    have kept : Value.entry? entries (.text "arguments") = entry.member? "arguments" := by
      rw [← put, Value.entry?_putEntry, Value.entry?_putEntry, if_neg (by decide), if_neg (by decide)]
      cases entry <;> rfl
    intro table present
    cases found : entry.member? "arguments" with
    | none =>
      have missing : ∀ name ∈ ["arguments"], Value.entry? entries (.text name) = none := by
        simpa [kept] using found
      rw [field_of_missing missing, Checked.valid.injEq] at arguments
      simp [← arguments] at present
    | some data =>
      rw [field_of_entry (kept.trans found), Checked.within_eq_valid, Option.mem_def.mp present]
        at arguments
      exact isJson_of_table (Value.hereditary_isJson.member? plain found) (check_of_optional arguments)
  next => exact absurd read throw_ne_ok

theorem hasJsonArguments_of_ofValue {data : Value} {program : Program} (plain : data.IsJson)
    (read : ofValue data = .ok program) : ∀ entry ∈ program.tools, entry.2.HasJsonArguments := by
  obtain ⟨listed, entries, ids, tools, entry, given, cut, -, made, -, -, same⟩ := ofValue_eq_ok read
  have whole : listed.IsJson := by
    obtain ⟨entries, rfl, found⟩ := member_eq_ok given
    exact Value.hereditary_isJson.entry? plain found
  have each : ∀ entry ∈ entries, entry.IsJson := by
    unfold parts at cut
    split at cut
    next => exact Except.ok.inj cut ▸ Value.isJson_list.mp whole
    next =>
      obtain ⟨⟨names, -, written⟩, -⟩ := Value.isJson_map.mp whole
      obtain rfl := Except.ok.inj cut
      rw [written, List.forall_mem_map]
      exact fun name _ => Value.isJson_text name
    next =>
      obtain rfl := Except.ok.inj cut
      rw [List.forall_mem_map]
      exact fun c _ => Value.isJson_text _
    next => simp [malformed] at cut
  rintro ⟨id, tool⟩ member
  obtain ⟨entry, known, read⟩ := exists_left_of_forall₂ made (mem_byId (same ▸ member)).1
  exact hasJsonArguments_of_readTool (each entry known) read

end Artifact

/-! ### Sources -/

/-- The data that content is read as, an artifact or an interface description. Native tools are no data. -/
inductive Document.IsData (content : Bytes) : Value → Prop where
  | artifact {chars : List Char} {json : Json} (kind : isArtifact content = .ok true)
      (text : Text.decodeDetected? content = some chars)
      (parsed : Json.parse (String.ofList chars) = .ok json) : IsData content (.ofJson json)
  | description {chars : List Char} {root : Root} {number : Nat} {location : String}
      (kind : openApiVersion content = .ok (some number)) (text : Text.decode? content = some chars)
      (decoded : decode (String.ofList chars) location none = .ok root) : IsData content (.map root)

theorem Source.hasJsonArguments_of_read {base : List Char} {model : String} {fetched : Fetched}
    {source : Source} (given : read base model fetched = .ok source)
    (plain : ∀ data, Document.IsData fetched.content data → data.IsJson) :
    ∀ tool ∈ source.tools, tool.HasJsonArguments := by
  rcases read_eq_ok given with ⟨kind, program, found, given⟩ | ⟨-, _, chars, text, given⟩
  · obtain ⟨chars, json, text, parsed, found⟩ := exists_ofValue found
    have closed := Artifact.closed_of_ofValue found
    intro tool member
    have known := (mem_tools_ofProgram closed.1 closed.2 given).mp member
    exact Artifact.hasJsonArguments_of_ofValue (plain _ (.artifact kind text parsed)) found _ known
  · obtain ⟨tools, made, ⟨number, root, version, kind, decoded, adapted⟩ | parsed⟩ := readText_eq_ok given
    · rw [(ofTools_eq_ok made).1]
      exact OpenApi.hasJsonArguments_of_tools (plain _ (.description kind text decoded)) adapted
    · rw [(ofTools_eq_ok made).1]
      exact Block.hasJsonArguments_of_parse parsed

end ToolGraph
