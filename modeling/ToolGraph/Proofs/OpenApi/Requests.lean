import ToolGraph.Proofs.OpenApi.ArgumentFields

/-!
The instructions of an operation and its arguments agree. The placeholders of the address are filled from the
arguments, so each must name a property, and those of the path must be required.
-/
namespace ToolGraph.OpenApi

/-! ### Addresses -/

def Operation.pathNames (operation : Operation) : List String :=
  (Piece.read operation.path.toList).filterMap fun
    | .char _ => none
    | .hole name => some (String.ofList name)

def Operation.queryNames (operation : Operation) : List String :=
  (operation.parameters.filter (·.place == .query)).map (·.name)

def queryString (names : List String) : String :=
  if names = [] then "" else "?" ++ "&".intercalate (names.map fun name => name ++ "=$\x7b" ++ name ++ "\x7d")

theorem ofList_joinWith (between : List Char) (pieces : List (List Char)) :
    String.ofList (Text.joinWith between pieces) =
      (String.ofList between).intercalate (pieces.map String.ofList) := by
  induction pieces using Text.joinWith.induct with
  | case1 => rfl
  | case2 piece => simp [Text.joinWith]
  | case3 piece pieces some ih =>
    obtain ⟨next, rest, rfl⟩ := List.exists_cons_of_ne_nil some
    change String.ofList (piece ++ between ++ Text.joinWith between (next :: rest)) = _
    rw [String.ofList_append, String.ofList_append, ih]
    simp [String.intercalate_cons_cons]

theorem ofList_queryItem (parameter : Parameter) :
    String.ofList (queryItem parameter) = parameter.name ++ "=$\x7b" ++ parameter.name ++ "\x7d" := by
  rw [← String.toList_inj]
  simp [queryItem, Piece.marked]

theorem ofList_urlTemplate (operation : Operation) (address : List Char) :
    String.ofList (urlTemplate operation address) =
      String.ofList address ++ String.ofList ((Piece.read operation.path.toList).flatMap Piece.marked) ++
        queryString operation.queryNames := by
  have items : operation.queryNames.map (fun name => name ++ "=$\x7b" ++ name ++ "\x7d") =
      ((operation.parameters.filter (·.place == .query)).map queryItem).map String.ofList := by
    rw [Operation.queryNames, List.map_map, List.map_map]
    exact List.map_congr_left fun parameter _ => (ofList_queryItem parameter).symm
  have written (query : List (List Char)) : String.ofList ('?' :: Text.joinWith ['&'] query) =
      "?" ++ "&".intercalate (query.map String.ofList) := by
    rw [← List.singleton_append, String.ofList_append, ofList_joinWith]
  rw [urlTemplate, queryString, items, String.ofList_append, String.ofList_append, List.flatMap_def]
  by_cases none : operation.parameters.filter (·.place == .query) = []
  · simp [none, Operation.queryNames]
  · simp only [Operation.queryNames, List.map_eq_nil_iff, List.isEmpty_iff, if_neg none, written]

/-! ### Requests -/

/-- What a tool sends agrees with its arguments and with what the description gives. -/
structure Agrees (version : Version) (server : List Char) (declaration : Declaration)
    (operation : Operation) (tool : Tool) : Prop where
  /-- The content type comes last, if a body is given. -/
  request : tool.instructions = directive ++ " " ++ declaration.method.upperName ++ " " ++
    (String.ofList server ++ String.ofList ((Piece.read operation.path.toList).flatMap Piece.marked) ++
      queryString operation.queryNames) ++ (declaration.body.map (" " ++ ·.contentType)).getD ""
  queries : List.Forall₂ IsNamed (declaration.parameters.filter (placeOf? · == some .query))
    operation.queryNames
  holes : (∀ name ∈ operation.pathNames, ∃ data ∈ declaration.parameters,
      placeOf? data = some .path ∧ IsNamed data name) →
    ∀ name ∈ operation.pathNames ++ operation.queryNames, (tool.property? name).isSome
  required : ∀ data ∈ declaration.parameters, placeOf? data = some .path →
    ∃ name, IsNamed data name ∧ .text name ∈ tool.requiredArguments
  kept : ∀ name parameter, lastNamed? operation.parameters name = some parameter →
    (name = bodyArgument → operation.body.bind Body.wholeSchema? = none) →
      ∃ property, tool.property? name = some property ∧ IsPropertyOf property parameter
  replaced : ∀ schema, operation.body.bind Body.wholeSchema? = some schema →
    tool.property? bodyArgument = some schema

section agreement
variable {version : Version} {server : List Char} {declaration : Declaration} {operation : Operation}
  {tool : Tool}

theorem instructions_eq (isToolOf : IsToolOf server operation tool) : tool.instructions =
    directive ++ " " ++ operation.method.upperName ++ " " ++
      (String.ofList server ++ String.ofList ((Piece.read operation.path.toList).flatMap Piece.marked) ++
        queryString operation.queryNames) ++ (operation.body.map (" " ++ ·.contentType)).getD "" := by
  rw [isToolOf.instructions, instructions, ofList_urlTemplate]
  cases operation.body <;> rfl

theorem exists_at_path (reads : declaration.Reads version operation) {data : Value}
    (member : data ∈ declaration.parameters) (path : placeOf? data = some .path) :
    ∃ parameter ∈ operation.parameters, IsRead version data parameter ∧ parameter.required = true := by
  have known : data ∈ declaration.parameters.filter (placeOf? · == some .path) := by simp [member, path]
  obtain ⟨parameter, found, read⟩ := exists_right_of_forall₂ (reads.filter (by decide)) known
  obtain ⟨own, place⟩ := List.mem_filter.mp found
  exact ⟨parameter, own, read, by rw [read.required, place, Bool.true_or]⟩

theorem agrees (reads : declaration.Reads version operation) (isToolOf : IsToolOf server operation tool) :
    Agrees version server declaration operation tool where
  request := by rw [instructions_eq isToolOf, reads.method, reads.map_contentType]
  queries := by
    refine List.forall₂_map_right_iff.mpr ((reads.filter (by decide)).imp ?_)
    exact fun data parameter read => read.name
  holes declared name member := by
    rcases List.mem_append.mp member with path | query
    · obtain ⟨data, given, place, named⟩ := declared name path
      obtain ⟨parameter, own, read, -⟩ := exists_at_path reads given place
      obtain rfl : parameter.name = name := Checked.valid.inj (read.name.symm.trans named)
      exact isToolOf.isSome_property? own
    · obtain ⟨parameter, own, rfl⟩ := List.mem_map.mp query
      exact isToolOf.isSome_property? (List.mem_filter.mp own).1
  required data given place := by
    obtain ⟨parameter, own, read, required⟩ := exists_at_path reads given place
    refine ⟨parameter.name, read.name, isToolOf.mem_requiredArguments ?_⟩
    exact List.mem_map_of_mem (List.mem_filter.mpr ⟨own, required⟩)
  kept name parameter last own :=
    ⟨_, isToolOf.property?_of_last last own, ArgumentFields.isPropertyOf_propertyOf parameter⟩
  replaced schema := isToolOf.property?_of_whole

end agreement

/-- Each operation that is given has a tool whose instructions and arguments agree. Only a body that is one
argument may take the place of a parameter. -/
theorem requests_agree {document : Value} {version : Version} {location workingDir model : String}
    {found : List Tool} (adapted : tools document version location workingDir model = .ok found) :
    ∃ spec description root own, inline document = .ok spec ∧
      Description.read document version location = .ok description ∧ found = root :: own ∧
      List.Forall₂ (fun declaration tool => ∃ operation, declaration.Reads version operation ∧
        Agrees version description.server declaration operation tool) (declarations version spec) own := by
  obtain ⟨spec, description, root, own, inlined, read, made, each⟩ := exists_operationTools adapted
  refine ⟨spec, description, root, own, inlined, read, made, each.imp ?_⟩
  rintro declaration tool ⟨operation, reads, isToolOf⟩
  exact ⟨operation, reads, agrees reads isToolOf⟩

def swallowed : Value :=
  let parameter (place name type : String) : Value :=
    .map [(.text "in", .text place), (.text "name", .text name),
      (.text "schema", .map [(.text "type", .text type)])]
  let body : Value :=
    .map [(.text "content", .map [(.text "text/plain",
      .map [(.text "schema", .map [(.text "type", .text "string")])])])]
  let note : Value :=
    .map [(.text "operationId", .text "note"), (.text "requestBody", body),
      (.text "parameters", .list [parameter "path" "day" "string",
        parameter "query" "requestBodyContent" "integer", parameter "query" "page" "integer"])]
  .map [(.text "servers", .list [.map [(.text "url", .text "https://notes.example")]]),
    (.text "paths", .map [(.text "/notes/\x7bday\x7d", .map [(.text "post", note)])])]

theorem swallowed_agrees : ∃ root tool, tools swallowed .three "/api.json" "/" "" = .ok [root, tool] ∧
    tool.instructions = "#!sys.openapi POST https://notes.example/notes/$\x7bday\x7d" ++
      "?requestBodyContent=$\x7brequestBodyContent\x7d&page=$\x7bpage\x7d text/plain" ∧
    tool.property? bodyArgument = some (.map [(.text "type", .text "string")]) ∧
    ∃ description, Description.read swallowed .three "/api.json" = .ok description ∧
      List.Forall₂ (fun declaration tool => ∃ operation, declaration.Reads .three operation ∧
        Agrees .three description.server declaration operation tool)
        (declarations .three swallowed) [tool] := by
  have made : ∃ root tool, tools swallowed .three "/api.json" "/" "" = .ok [root, tool] ∧
      tool.instructions = "#!sys.openapi POST https://notes.example/notes/$\x7bday\x7d" ++
        "?requestBodyContent=$\x7brequestBodyContent\x7d&page=$\x7bpage\x7d text/plain" ∧
      tool.property? bodyArgument = some (.map [(.text "type", .text "string")]) :=
    ⟨_, _, rfl, by decide +kernel, rfl⟩
  obtain ⟨root, tool, adapted, request, property⟩ := made
  obtain ⟨spec, description, _, own, inlined, read, same, each⟩ := requests_agree adapted
  obtain ⟨rfl, rfl⟩ := List.cons.inj same
  obtain rfl : swallowed = spec := Except.ok.inj inlined
  exact ⟨root, tool, adapted, request, property, description, read, each⟩

end ToolGraph.OpenApi
