import ToolGraph.Location
import ToolGraph.OpenApi.Operation
import ToolGraph.OpenApi.Template

/-! The address of the server that the operations of a description are sent to. -/
namespace ToolGraph.OpenApi
open Text

def textOr (fallback : String) (value : Value) : Except Refusal String := do
  demand value.isShowable
  return if value.isPresent then value.display else fallback

def fillPiece (choices : Value) : Piece → Except Refusal (List Char)
  | .char c => .ok [c]
  | .hole name => do
    let part := s!"server variable '{String.ofList name}'"
    let definition ← objectOf part (choices.get (String.ofList name))
    match definition.member? "default" with
    | some value =>
      demand value.isShowable
      return value.display.toList
    | none => return (Piece.hole name).source

/-- The address that version 3 gives, the one of its first server. -/
def serverText (spec : Value) : Except Refusal (List Char) := do
  let servers ← objectsOf "servers" (spec.get "servers")
  let server := servers.headD (.map [])
  let choices ← objectOf "servers[0].variables" (server.get "variables")
  let template ← textOr "/" (server.get "url")
  let pieces ← (Piece.read template.toList).mapM (fillPiece choices)
  return pieces.flatten

def dropSlashes (address : List Char) : List Char := dropEndWhile (· == '/') address

def refused {α : Type} (location : String) (result : Except ConversionFault α) : Except Error α :=
  result.mapError (.conversion location)

/-- What stops the reading of the description at a location, as a failure. -/
def Refusal.error (location : String) : Refusal → Error
  | .fault cause => .conversion location cause
  | .hugeInteger => .bare (.json .hugeInteger)

def reading {α : Type} (location : String) (result : Except Refusal α) : Except Error α :=
  result.mapError (Refusal.error location)

def malformedUrl {α : Type} (result : Except UrlError α) : Except Error α :=
  result.mapError (fun error => .bare (.url error))

/-- The address in version 3. A relative one is seen from the description if that is on the web. -/
def address3 (spec : Value) (location : String) : Except Error (List Char) := do
  let url ← reading location (serverText spec)
  let url ←
    if !Location.isUrl url && Location.isUrl location.toList then
      malformedUrl (Url.join location.toList url)
    else pure url
  return dropSlashes url

/-- The address in version 2: scheme, host and base path. What is missing of scheme and host is
taken from the location of the description if that is on the web. -/
def address2 (spec : Value) (location : String) : Except Error (List Char) := do
  let basePath ← reading location (textOr "" (spec.get "basePath"))
  let (scheme, ownHost) ←
    if Location.isUrl location.toList then do
      let url ← malformedUrl (Url.split location.toList [])
      pure (url.scheme, url.authority)
    else pure ("https".toList, [])
  let schemes ← reading location (textsOf "schemes" (spec.get "schemes"))
  let host ← reading location (textOr (String.ofList ownHost) (spec.get "host"))
  if host.isEmpty then return dropSlashes basePath.toList
  let scheme := (schemes.head?.map String.toList).getD scheme
  return dropSlashes (scheme ++ "://".toList ++ host.toList ++ basePath.toList)

def address (version : Version) (spec : Value) (location : String) : Except Error (List Char) :=
  match version with
  | .two => address2 spec location
  | .three => address3 spec location

end ToolGraph.OpenApi
