import ToolGraph.Url.Basic

/-! Resolving a reference against the URL it was found in. -/
namespace ToolGraph.Url
open Text

def cutParameters (path : List Char) : List Char × List Char :=
  match cutAtLast? '/' path with
  | some (before, last) =>
    let (name, parameters) := cutAt ';' last
    (before ++ '/' :: name, parameters)
  | none => cutAt ';' path

def withParameters (path parameters : List Char) : List Char :=
  if parameters.isEmpty then path else path ++ ';' :: parameters

def baseSegments (path : List Char) : List (List Char) :=
  let segments := splitAt '/' path
  if segments.getLast? == some [] then segments else segments.dropLast

def dropInnerEmpty : List (List Char) → List (List Char)
  | [] => []
  | first :: rest =>
    match rest.getLast? with
    | none => [first]
    | some last => first :: rest.dropLast.filter (!·.isEmpty) ++ [last]

/-- Adds a segment to reversed segments: `.` adds nothing and `..` removes the one before, if
there is one. -/
def resolveSegment (done : List (List Char)) (segment : List Char) : List (List Char) :=
  if segment = ['.', '.'] then done.tail
  else if segment = ['.'] then done
  else segment :: done

/-- The path that segments lead to. A dot segment at the end leaves a directory. -/
def resolvePath (segments : List (List Char)) : List Char :=
  let done := segments.foldl resolveSegment []
  let done :=
    match segments.getLast? with
    | some last => if last = ['.'] ∨ last = ['.', '.'] then [] :: done else done
    | none => done
  match joinWith ['/'] done.reverse with
  | [] => ['/']
  | c :: rest => c :: rest

/-- The path of `reference`, which is not empty, seen from the path of its base. -/
def joinPath (base reference : List Char) : List Char :=
  if startsWith "/" reference then resolvePath (splitAt '/' reference)
  else resolvePath (dropInnerEmpty (baseSegments base ++ splitAt '/' reference))

/-- Resolves `reference` against the web URL `base`. A reference with another scheme stands as it
is; otherwise what it leaves out is taken from the base. -/
def join (base reference : List Char) : Except UrlError (List Char) := do
  if reference.isEmpty then return base
  let start ← split base []
  let target ← split reference start.scheme
  if target.scheme ≠ start.scheme then return reference
  let (path, parameters) := cutParameters target.path
  if !target.authority.isEmpty then
    return toText { target with path := withParameters path parameters }
  let (basePath, baseParameters) := cutParameters start.path
  if path.isEmpty && parameters.isEmpty then
    return toText
      { target with
        authority := start.authority
        path := withParameters basePath baseParameters
        query := if target.query.isEmpty then start.query else target.query }
  return toText
    { target with
      authority := start.authority
      path := withParameters (joinPath basePath path) parameters }

end ToolGraph.Url
