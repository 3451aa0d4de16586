import ToolGraph.Proofs.OpenApi.Expansion
import ToolGraph.Proofs.OpenApi.Upgrade

/-!
A description of version 2 and the same in version 3 have the same tools. All that version 2 reads beyond
its document is the location, which it splits though the address of the server is whole.
-/
namespace ToolGraph.OpenApi
open Text

/-! ### References -/

theorem pointers_of_entry? {entries : List (Value × Value)} {key value : Value}
    (whole : ∀ entry ∈ entries, pointers entry.2 = [])
    (found : Value.entry? entries key = some value) : pointers value = [] := by
  obtain ⟨entry, known, rfl⟩ := Option.map_eq_some_iff.mp found
  exact whole entry (List.mem_of_find?_eq_some known)

theorem pointers_of_member? {value found : Value} {name : String} (whole : pointers value = [])
    (known : value.member? name = some found) : pointers found = [] := by
  cases value with
  | map entries => exact pointers_of_entry? (pointers_map.mp whole).2 known
  | _ => simp [Value.member?] at known

theorem pointers_entryOf {value : Value} (whole : pointers value = []) (name : String) :
    ∀ entry ∈ entryOf value name, pointers entry.2 = [] := by
  intro entry member
  obtain ⟨found, known, rfl⟩ := List.mem_map.mp member
  exact pointers_of_member? whole (Option.mem_toList.mp known)

theorem pointers_leaveOut {names : List String} {entries : List (Value × Value)}
    (whole : ∀ entry ∈ entries, pointers entry.2 = []) :
    ∀ entry ∈ leaveOut names entries, pointers entry.2 = [] :=
  fun entry member => whole entry (List.mem_filter.mp member).1

theorem pointers_map_of_names {entries : List (Value × Value)}
    (none : Value.entry? entries (.text "$ref") = Option.none)
    (whole : ∀ entry ∈ entries, pointers entry.2 = []) : pointers (.map entries) = [] :=
  pointers_map.mpr ⟨by simp [none], whole⟩

theorem pointers_upgradeParameter {parameter : Value} (whole : pointers parameter = []) :
    pointers (upgradeParameter parameter) = [] := by
  cases parameter with
  | map entries =>
    obtain ⟨noReference, each⟩ := pointers_map.mp whole
    refine pointers_map.mpr ⟨?_, ?_⟩
    · have same := member?_upgradeParameter (show "$ref" ∉ ["type", "schema"] by decide)
        (.map entries)
      simp only [upgradeParameter, Value.member?] at same
      rwa [same]
    · refine List.forall_mem_append.mpr ⟨pointers_leaveOut each, ?_⟩
      simp only [List.mem_singleton, forall_eq]
      refine pointers_map_of_names (by simp [entry?_entryOf]) (pointers_entryOf whole "type")
  | _ => exact whole

theorem pointers_upgradeParameters {parameters : Value} (whole : pointers parameters = []) :
    pointers (upgradeParameters parameters) = [] := by
  cases parameters with
  | list items =>
    rw [pointers, itemPointers_eq_nil] at whole
    rw [upgradeParameters, pointers, itemPointers_eq_nil]
    intro parameter member
    obtain ⟨origin, known, rfl⟩ := List.mem_map.mp member
    exact pointers_upgradeParameter (whole origin (List.mem_filter.mp known).1)
  | _ => exact whole

theorem pointers_upgradeBody (types : List String) {parameter : Value}
    (whole : pointers parameter = []) : pointers (upgradeBody types parameter) = [] := by
  have media : pointers (.map (entryOf parameter "schema")) = [] :=
    pointers_map_of_names (by simp [entry?_entryOf]) (pointers_entryOf whole "schema")
  have content : pointers
      (.map [(.text (pickContentType types), .map (entryOf parameter "schema"))]) = [] := by
    refine pointers_map.mpr ⟨?_, by simpa using media⟩
    intro value found
    rw [Value.entry?_cons] at found
    split at found
    · exact Option.some.inj found ▸ rfl
    · simp [entry?_nil] at found
  refine pointers_map_of_names ?_ ?_
  · simp [entry?_append, entry?_entryOf, Value.entry?_cons, entry?_nil]
  · simp only [List.forall_mem_append, List.mem_singleton, forall_eq]
    exact ⟨⟨pointers_entryOf whole "description", pointers_entryOf whole "required"⟩, content⟩

theorem pointers_bodyOf? {operation body : Value} (whole : pointers operation = [])
    (found : bodyOf? operation = some body) : pointers body = [] := by
  have member := List.mem_of_find?_eq_some found
  cases known : operation.member? "parameters" with
  | none => simp [Value.get, known, itemsOf] at member
  | some parameters =>
    have part := pointers_of_member? whole known
    rw [Value.get, known, Option.getD_some] at member
    cases parameters with
    | list items =>
      rw [pointers, itemPointers_eq_nil] at part
      exact part body member
    | _ => simp [itemsOf] at member

theorem pointers_upgradeOperation (consumes : List String) {operation : Value}
    (whole : pointers operation = []) : pointers (upgradeOperation consumes operation) = [] := by
  cases operation with
  | map entries =>
    obtain ⟨noReference, each⟩ := pointers_map.mp whole
    refine pointers_map.mpr ⟨?_, ?_⟩
    · have same := member?_upgradeOperation consumes entries "$ref"
      simp only [upgradeOperation, Value.member?] at same
      rw [same]
      simpa using noReference
    · simp only [List.forall_mem_append]
      refine ⟨⟨pointers_leaveOut each, ?_⟩, ?_⟩
      · intro entry member
        obtain ⟨origin, known, rfl⟩ := List.mem_map.mp member
        exact pointers_upgradeParameters (pointers_entryOf whole "parameters" origin known)
      · intro entry member
        obtain ⟨body, known, rfl⟩ := List.mem_map.mp member
        exact pointers_upgradeBody _ (pointers_bodyOf? whole (Option.mem_toList.mp known))
  | _ => exact whole

/-- Entries whose values are written anew hold no reference if they held none. -/
theorem pointers_map_entries {f : Value → Value → Value} {entries : List (Value × Value)}
    (noText : ∀ key value, value.isText = false → (f key value).isText = false)
    (kept : ∀ key value, pointers value = [] → pointers (f key value) = [])
    (whole : pointers (.map entries) = []) :
    pointers (.map (entries.map (fun entry => (entry.1, f entry.1 entry.2)))) = [] := by
  obtain ⟨noReference, each⟩ := pointers_map.mp whole
  refine pointers_map.mpr ⟨?_, ?_⟩
  · intro value found
    rw [entry?_mapEntries] at found
    obtain ⟨origin, known, rfl⟩ := Option.map_eq_some_iff.mp found
    exact noText _ _ (noReference origin known)
  · intro entry member
    obtain ⟨origin, known, rfl⟩ := List.mem_map.mp member
    exact kept _ _ (each origin known)

theorem isText_upgradePart (consumes : List String) (key value : Value) :
    (upgradePart consumes key value).isText = value.isText := by
  unfold upgradePart
  split
  · cases value <;> rfl
  · split
    · cases value <;> rfl
    · rfl

theorem pointers_upgradePart (consumes : List String) (key : Value) {value : Value}
    (whole : pointers value = []) : pointers (upgradePart consumes key value) = [] := by
  unfold upgradePart
  split
  · exact pointers_upgradeParameters whole
  · split
    · exact pointers_upgradeOperation consumes whole
    · exact whole

theorem pointers_upgradeItem (consumes : List String) {item : Value} (whole : pointers item = []) :
    pointers (upgradeItem consumes item) = [] := by
  cases item with
  | map entries =>
    exact pointers_map_entries
      (fun key value other => (isText_upgradePart consumes key value).trans other)
      (fun key value => pointers_upgradePart consumes key) whole
  | _ => exact whole

theorem pointers_upgradePaths (consumes : List String) {paths : Value} (whole : pointers paths = []) :
    pointers (upgradePaths consumes paths) = [] := by
  cases paths with
  | map entries =>
    apply pointers_map_entries (f := fun _ => upgradeItem consumes) _ _ whole
    · intro key value other
      cases value <;> exact other
    · intro key value
      exact pointers_upgradeItem consumes
  | _ => exact whole

/-! ### Documents -/

theorem member?_upgrade {name : String}
    (kept : name ∉ ["swagger", "openapi", "host", "basePath", "schemes", "consumes", "servers", "paths"])
    (document : Value) : (upgrade document).member? name = document.member? name := by
  cases document with
  | map entries =>
    have apart : "openapi" ≠ name ∧ "servers" ≠ name ∧ "paths" ≠ name := by
      refine ⟨?_, ?_, ?_⟩ <;> (rintro rfl; simp at kept)
    simp only [upgrade, Value.member?, entry?_append, entry?_leaveOut, if_neg kept,
      Value.entry?_cons, Value.sameKey_text, Value.text.injEq, if_neg apart.1, if_neg apart.2.1,
      entry?_entryOf_map, if_neg apart.2.2, entry?_nil, Option.or_none]
  | _ => rfl

theorem get_upgrade {name : String}
    (kept : name ∉ ["swagger", "openapi", "host", "basePath", "schemes", "consumes", "servers", "paths"])
    (document : Value) : (upgrade document).get name = document.get name := by
  rw [Value.get, member?_upgrade kept, ← Value.get]

theorem pointers_upgrade {document : Value} (whole : pointers document = []) :
    pointers (upgrade document) = [] := by
  cases document with
  | map entries =>
    obtain ⟨noReference, each⟩ := pointers_map.mp whole
    refine pointers_map.mpr ⟨?_, ?_⟩
    · have same := member?_upgrade (show "$ref" ∉ _ by decide) (.map entries)
      simp only [upgrade, Value.member?] at same
      rw [same]
      exact noReference
    · simp only [List.forall_mem_append]
      refine ⟨⟨pointers_leaveOut each, ?_⟩, ?_⟩
      · simp [pointers, itemPointers, reference?, Value.entry?_cons, entry?_nil, entryPointers]
      · intro entry member
        obtain ⟨origin, known, rfl⟩ := List.mem_map.mp member
        exact pointers_upgradePaths _ (pointers_entryOf whole "paths" origin known)
  | _ => exact whole

theorem paths_upgrade (document : Value) :
    (upgrade document).get "paths" =
      upgradePaths (textsIn (document.get "consumes")) (document.get "paths") := by
  cases document with
  | map entries =>
    simp only [upgrade, Value.get, Value.member?, entry?_append, entry?_leaveOut, Value.entry?_cons,
      Value.sameKey_text, Value.text.injEq, entry?_entryOf_map, entry?_nil]
    cases Value.entry? entries (.text "paths") <;> simp [upgradePaths]
  | _ => rfl

theorem consumes_upgrade {document : Value} (object : document.isMap = true) :
    (upgrade document).get "consumes" = .null := by
  cases document with
  | map entries =>
    simp [upgrade, Value.get, Value.member?, entry?_append, entry?_leaveOut, Value.entry?_cons,
      entry?_entryOf_map]
  | _ => simp [Value.isMap] at object

theorem servers_upgrade {document : Value} (object : document.isMap = true) :
    (upgrade document).get "servers" =
      .list [.map [(.text "url", .text (serverUrl document))]] := by
  cases document with
  | map entries =>
    simp [upgrade, Value.get, Value.member?, entry?_append, entry?_leaveOut, Value.entry?_cons]
  | _ => simp [Value.isMap] at object

theorem readOperations_upgrade {document : Value} (plain : IsPlain document) :
    readOperations .two document = readOperations .three (upgrade document) := by
  have missing : textsOf "consumes" ((upgrade document).get "consumes") = .ok [] := by
    rw [consumes_upgrade plain.object]
    rfl
  simp only [readOperations, textsOf_of_areTexts _ plain.consumes, missing, paths_upgrade,
    objectOf_upgradePaths]
  cases read : objectOf "paths" (document.get "paths") with
  | error => rfl
  | ok paths =>
    have each : paths.entries.mapM (fun entry =>
        readPath ⟨.two, textsIn (document.get "consumes")⟩ entry.1 entry.2) =
        (upgradePaths (textsIn (document.get "consumes")) paths).entries.mapM (fun entry =>
          readPath ⟨.three, []⟩ entry.1 entry.2) := by
      rw [entries_upgradePaths, List.mapM_map]
      apply mapM_congr
      intro entry member
      apply readPath_upgrade
      apply plain.items
      rwa [← entries_objectOf read]
    simp only [Except.map, bind, Except.bind, each]

/-! ### The address of the server -/

theorem Piece.read_plain {text : List Char} (plain : '\x7b' ∉ text) :
    Piece.read text = text.map Piece.char := by
  unfold Piece.read
  induction text with
  | nil => rfl
  | cons c rest ih =>
    rw [List.mem_cons, not_or] at plain
    obtain ⟨other, later⟩ := plain
    rw [readFrom, if_neg (Ne.symm other), ih later, List.map_cons]

theorem fill_plain (choices : Value) (text : List Char) :
    (text.map Piece.char).mapM (fillPiece choices) = .ok (text.map ([·])) := by
  rw [mapM_eq_ok, List.forall₂_map_left_iff, List.forall₂_map_right_iff, List.forall₂_same]
  intro c member
  rfl

theorem textOr_text (fallback text : String) :
    textOr fallback (.text text) = .ok (if text.isEmpty then fallback else text) := by
  unfold textOr
  rw [demand_of (Value.isShowable_text text)]
  cases known : text.isEmpty <;>
    simp [Value.isPresent, Value.display, known, bind, Except.bind, pure, Except.pure]

theorem serverText_of_url {spec : Value} {url : String}
    (given : spec.get "servers" = .list [.map [(.text "url", .text url)]]) (some : url ≠ "")
    (plain : '\x7b' ∉ url.toList) : serverText spec = .ok url.toList := by
  have server : (Value.map [(.text "url", .text url)]).get "url" = .text url := by
    simp [Value.get, Value.member?, Value.entry?_cons]
  have choices : (Value.map [(.text "url", .text url)]).get "variables" = .null := by
    simp [Value.get, Value.member?, Value.entry?_cons, entry?_nil]
  have flat : (url.toList.map ([·])).flatten = url.toList := by
    rw [← List.flatMap_def, List.flatMap_singleton']
  simp only [serverText, given, objectsOf, List.all_cons, Value.isMap, List.all_nil, Bool.and_self,
    if_true, bind, Except.bind, List.headD_cons, choices, server, objectOf, textOr_text,
    String.isEmpty_iff, if_neg some, Piece.read_plain plain, fill_plain, flat]
  rfl

structure Addresses (document : Value) (scheme host path : String) : Prop where
  listed : ∃ rest : List String, document.get "schemes" = .list ((scheme :: rest).map .text)
  web : scheme ∈ ["http", "https"]
  given : document.get "host" = .text host
  named : host ≠ ""
  based : (document.member? "basePath").getD (.text "") = .text path
  plain : '\x7b' ∉ (scheme ++ "://" ++ host ++ path).toList

section addresses
variable {document : Value} {scheme host path : String}

theorem IsPlain.exists_addresses (plain : IsPlain document) :
    ∃ scheme host path, Addresses document scheme host path := by
  obtain ⟨host, given, named, noHost⟩ := plain.host
  obtain ⟨path, based, noPath⟩ := plain.basePath
  obtain ⟨scheme, rest, listed, web⟩ := plain.schemes
  refine ⟨scheme, host, path, ⟨rest, listed⟩, web, given, named, based, ?_⟩
  have noScheme : '\x7b' ∉ (scheme ++ "://").toList := by
    simp only [List.mem_cons, List.not_mem_nil, or_false] at web
    rcases web with rfl | rfl <;> decide
  simp only [String.toList_append, List.mem_append, not_or] at noScheme ⊢
  exact ⟨⟨noScheme, noHost⟩, noPath⟩

namespace Addresses
variable (addresses : Addresses document scheme host path)
include addresses

theorem serverUrl_eq : serverUrl document = scheme ++ "://" ++ host ++ path := by
  obtain ⟨rest, listed⟩ := addresses.listed
  simp only [serverUrl, listed, addresses.given, addresses.based, textsIn, itemsOf, List.map_cons,
    List.headD_cons, Value.display]

theorem isUrl : Location.isUrl (scheme ++ "://" ++ host ++ path).toList = true := by
  have web := addresses.web
  simp only [List.mem_cons, List.not_mem_nil, or_false] at web
  rcases web with rfl | rfl
  · simp [Location.isUrl, startsWith]
  · simp [Location.isUrl, startsWith]

theorem address3_upgrade (object : document.isMap = true) (location : String) :
    address3 (upgrade document) location =
      .ok (dropSlashes (scheme ++ "://" ++ host ++ path).toList) := by
  have text : serverText (upgrade document) = .ok (scheme ++ "://" ++ host ++ path).toList :=
    serverText_of_url (addresses.serverUrl_eq ▸ servers_upgrade object) (by simp) addresses.plain
  simp only [address3, text, reading, Except.mapError, bind, Except.bind, addresses.isUrl,
    Bool.not_true, Bool.false_and, Bool.false_eq_true, if_false]
  rfl

theorem address2_eq (location : String) :
    address2 document location = (do
      if Location.isUrl location.toList then
        let _ ← malformedUrl (Url.split location.toList [])
      return dropSlashes (scheme ++ "://" ++ host ++ path).toList) := by
  obtain ⟨rest, listed⟩ := addresses.listed
  have based : textOr "" (document.get "basePath") = .ok path := by
    have known := addresses.based
    unfold Value.get
    cases own : document.member? "basePath" with
    | none =>
      rw [own] at known
      exact congrArg Except.ok (Value.text.inj known)
    | some value =>
      rw [own] at known
      obtain rfl : value = .text path := known
      rw [Option.getD_some, textOr_text]
      split
      next empty => rw [String.isEmpty_iff.mp empty]
      next => rfl
  have schemes : textsOf "schemes" (document.get "schemes") = .ok (scheme :: rest) := by
    rw [listed, textsOf_of_areTexts _ (.texts _)]
    simp [textsIn, itemsOf, Function.comp_def, Value.display]
  have given : ∀ fallback, textOr fallback (document.get "host") = .ok host := by
    intro fallback
    rw [addresses.given, textOr_text, if_neg (by simpa using addresses.named)]
  have named : host.isEmpty = false := by simpa using addresses.named
  have text : scheme.toList ++ "://".toList ++ host.toList ++ path.toList =
      (scheme ++ "://" ++ host ++ path).toList := by
    simp only [String.toList_append]
  simp only [address2, based, schemes, given, reading, Except.mapError, bind, Except.bind, named]
  split
  next =>
    cases malformedUrl (Url.split location.toList []) with
    | error => rfl
    | ok url => exact congrArg (Except.ok <| dropSlashes ·) text
  next => exact congrArg (Except.ok <| dropSlashes ·) text

end Addresses
end addresses

/-! ### The tools -/

section tools
variable {document : Value} {location : String}

theorem isMap_upgrade : (upgrade document).isMap = document.isMap := by cases document <;> rfl

theorem read_upgrade (plain : IsPlain document)
    (same : address2 document location = address3 (upgrade document) location) :
    Description.read document .two location =
      Description.read (upgrade document) .three location := by
  simp only [Description.read, inline_whole plain.whole,
    inline_whole (pointers_upgrade plain.whole), refused, Except.mapError, bind, Except.bind,
    isMap_upgrade, plain.object, Bool.not_true, Bool.false_eq_true, if_false,
    readOperations_upgrade plain, address, same,
    get_upgrade (show "info" ∉ _ by decide)]

theorem read_of_malformed (plain : IsPlain document) {error : UrlError} {description : Description}
    (web : Location.isUrl location.toList = true)
    (malformed : Url.split location.toList [] = .error error)
    (read : Description.read (upgrade document) .three location = .ok description) :
    Description.read document .two location = .error (.bare (.url error)) := by
  obtain ⟨scheme, host, path, addresses⟩ := plain.exists_addresses
  have fails : address2 document location = .error (.bare (.url error)) := by
    rw [addresses.address2_eq, if_pos web, malformed]
    rfl
  simp only [Description.read, inline_whole plain.whole,
    inline_whole (pointers_upgrade plain.whole), refused, Except.mapError, bind, Except.bind,
    isMap_upgrade, plain.object, Bool.not_true, Bool.false_eq_true, if_false,
    readOperations_upgrade plain, address, fails] at read ⊢
  cases operations : reading location (readOperations .three (upgrade document)) with
  | error => simp [operations] at read
  | ok found =>
    cases found with
    | nil => simp [operations, throw, throwThe, MonadExceptOf.throw] at read
    | cons => rfl

/-- A description of version 2 has the tools that it has in version 3, wherever it lies. Only a location
that starts like a URL and is none stands in the way: version 2 fails there although the address of the
server does not depend on it. -/
theorem versions_agree (plain : IsPlain document) (location workingDir model : String) :
    ((Location.isUrl location.toList = true → ∃ url, Url.split location.toList [] = .ok url) →
      tools document .two location workingDir model =
        tools (upgrade document) .three location workingDir model) ∧
    ∀ error, Location.isUrl location.toList = true → Url.split location.toList [] = .error error →
      ∀ found, tools (upgrade document) .three location workingDir model = .ok found →
        tools document .two location workingDir model = .error (.bare (.url error)) := by
  obtain ⟨scheme, host, path, addresses⟩ := plain.exists_addresses
  constructor
  · intro known
    have same : address2 document location = address3 (upgrade document) location := by
      rw [addresses.address2_eq, addresses.address3_upgrade plain.object]
      split
      next web =>
        obtain ⟨url, splits⟩ := known web
        rw [splits]
        rfl
      next => rfl
    rw [tools_eq, tools_eq, read_upgrade plain same]
  · intro error web malformed found known
    obtain ⟨description, read, -⟩ := map_eq_ok.mp known
    rw [tools_eq, read_of_malformed plain web malformed read]
    rfl

end tools

def shop : Value :=
  let parameter (place name type : String) : Value :=
    .map [(.text "in", .text place), (.text "name", .text name), (.text "type", .text type)]
  let body : Value :=
    .map [(.text "in", .text "body"), (.text "name", .text "order"),
      (.text "schema", .map [(.text "properties", .map [(.text "count", .map [])])])]
  let order : Value :=
    .map [(.text "operationId", .text "order"),
      (.text "consumes", .list [.text "text/plain", .text "application/json"]),
      (.text "parameters", .list [parameter "path" "item" "integer", body])]
  .map [(.text "swagger", .text "2.0"), (.text "host", .text "shop.example"),
    (.text "schemes", .list [.text "https"]),
    (.text "paths", .map [(.text "/items/\x7bitem\x7d",
      .map [(.text "parameters", .list [parameter "query" "day" "string"]), (.text "post", order)])])]

theorem isPlain_shop : IsPlain shop where
  object := rfl
  whole := by decide
  host := ⟨"shop.example", rfl, by decide, by decide⟩
  basePath := ⟨"", rfl, by decide⟩
  schemes := ⟨"https", [], rfl, by decide⟩
  consumes := .missing
  items := by
    intro entry member
    obtain rfl := List.mem_singleton.mp member
    constructor
    · intro parameter member
      obtain rfl := List.mem_singleton.mp member
      exact ⟨⟨"query", by decide, rfl⟩, rfl, rfl, .inl rfl⟩
    · intro method
      cases method with
      | post =>
        refine ⟨.texts ["text/plain", "application/json"], ?_, by decide⟩
        intro parameter member
        rcases List.mem_cons.mp member with rfl | later
        · exact .inl ⟨⟨"path", by decide, rfl⟩, rfl, rfl, .inl rfl⟩
        · obtain rfl := List.mem_singleton.mp later
          exact .inr ⟨rfl, rfl⟩
      | _ => exact ⟨.missing, fun _ member => absurd member List.not_mem_nil, by decide⟩

theorem shop_agrees :
    IsPlain shop ∧
      tools shop .two "/shop.json" "/" "" = tools (upgrade shop) .three "/shop.json" "/" "" ∧
      ∃ found, tools (upgrade shop) .three "http://[shop/shop.json" "/" "" = .ok found ∧
        tools shop .two "http://[shop/shop.json" "/" "" =
          .error (.bare (.url .unbalancedBrackets)) := by
  refine ⟨isPlain_shop, ?_, ?_⟩
  · exact (versions_agree isPlain_shop "/shop.json" "/" "").1 fun web => absurd web (by decide)
  · have reads : (tools (upgrade shop) .three "http://[shop/shop.json" "/" "").isOk = true := by
      decide +kernel
    cases known : tools (upgrade shop) .three "http://[shop/shop.json" "/" "" with
    | error => simp [known, Except.isOk, Except.toBool] at reads
    | ok found =>
      exact ⟨found, rfl, (versions_agree isPlain_shop "http://[shop/shop.json" "/" "").2 _
        (by decide) (by decide +kernel) found known⟩

end ToolGraph.OpenApi
