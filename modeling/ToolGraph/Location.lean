import ToolGraph.Path
import ToolGraph.Url.Join

/-! Where a source lies: a web URL or a path in the file system. -/
namespace ToolGraph.Location
open Text

def isUrl (location : List Char) : Bool :=
  startsWith "http://" location || startsWith "https://" location

/-- A reference to the default branch of a repository, written without a scheme. -/
def isRepository (location : List Char) : Bool := startsWith "github.com/" location

/-- The location is complete and needs no directory to be seen from. -/
def isAbsolute (location : List Char) : Bool :=
  isUrl location || isRepository location || Path.isAbsolute location

/-- The location that `reference` means in the directory `base`. -/
def join (home reference base : List Char) : Except UrlError (List Char) :=
  if isAbsolute reference then .ok reference
  else if isUrl base then Url.join (dropEndWhile (· == '/') base ++ ['/']) reference
  else .ok (Path.normalise (Path.join base (Path.expandHome home reference)))

/-- The directory in which the references of a source are seen. A location that is neither a URL
nor an absolute path is a label, and its source is seen from `base`. -/
def workingDir (location base : List Char) : Except UrlError (List Char) :=
  if isUrl location then do
    let url ← Url.split location []
    let path := Path.parent url.path
    return url.scheme ++ "://".toList ++ url.authority ++ (if path.isEmpty then ['/'] else path)
  else if Path.isAbsolute location then .ok (Path.parent location)
  else .ok base

end ToolGraph.Location
