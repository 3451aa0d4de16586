import ToolGraph.Error
import ToolGraph.Location

/-!
Canonical locations. All spellings of one source have the same canonical location, under which it is
fetched once: a web URL, in which pages of repository files become the files themselves, or an
absolute path, in which a directory stands for its tool file.
-/
namespace ToolGraph.Canonical
open Text

/-- The file that stands for a directory or a repository. -/
def toolFile : List Char := "tool.gpt".toList

/-- Where the files of repositories lie. -/
def rawHost : List Char := "https://raw.githubusercontent.com".toList

def rawUrl (owner repository version path : List Char) : List Char :=
  joinWith ['/'] [rawHost, owner, repository, version, path]

/-- The URL for `github.com/<owner>/<repo>[/<path>][@<version>]`. -/
def ofRepository? (reference : List Char) : Option (List Char) :=
  let (path, version) := cutAt '@' (reference.drop "github.com/".length)
  match (splitAt '/' path).filter (!·.isEmpty) with
  | owner :: repository :: segments =>
    some (rawUrl owner repository (if version.isEmpty then "HEAD".toList else version)
      (if segments.isEmpty then toolFile else joinWith ['/'] segments))
  | _ => none

/-- The hosts whose pages show the files of repositories. -/
def pageHosts : List (List Char) := ["github.com".toList, "www.github.com".toList]

def ofUrl (location : List Char) : Except UrlError (List Char) := do
  let url ← Url.split location []
  match splitAt '/' (trimWhile (· == '/') url.path) with
  | owner :: repository :: mark :: version :: segment :: segments =>
    if pageHosts.contains url.authority ∧ mark = "blob".toList then
      return rawUrl owner repository version (joinWith ['/'] (segment :: segments))
    else return location
  | _ => return location

/-- What the canonical form of a path hangs on: the directories that exist, the home directory, and
the current one. -/
structure Place where
  isDirectory : List Char → Bool
  home : List Char
  cwd : List Char

def ofPath (place : Place) (location : List Char) : List Char :=
  let path := Path.absolute place.cwd (Path.expandHome place.home location)
  if place.isDirectory path then Path.join path toolFile else path

def location (place : Place) (location : List Char) : Except Error (List Char) :=
  if Location.isRepository location then
    match ofRepository? location with
    | some url => .ok url
    | none => .error (.source (String.ofList location) .notRepository)
  else if Location.isUrl location then
    match ofUrl location with
    | .ok url => .ok url
    | .error error => .error (.bare (.url error))
  else .ok (ofPath place location)

end ToolGraph.Canonical
