import ToolGraph.Text.Cut
import ToolGraph.Text.Blank

/-! Paths of a file system with `/` between the names. -/
namespace ToolGraph.Path
open Text

def isAbsolute (path : List Char) : Bool := ['/'].isPrefixOf path

def rootSlashes (path : List Char) : Nat :=
  match (path.takeWhile (· == '/')).length with
  | 0 => 0
  | 2 => 2
  | _ => 1

/-- Adds a segment to the reversed segments of a normal path. A step up removes the last name;
above the root it is dropped, and in a relative path it stays. -/
def pushSegment (rooted : Bool) (done : List (List Char)) (segment : List Char) :
    List (List Char) :=
  if segment = [] ∨ segment = ['.'] then done
  else if segment ≠ ['.', '.'] then segment :: done
  else
    match done with
    | [] => if rooted then [] else [segment]
    | last :: before => if last = ['.', '.'] then segment :: done else before

/-- A path without empty segments, `.` and removable `..`; the empty path is `.`. -/
def normalise (path : List Char) : List Char :=
  let slashes := rootSlashes path
  let segments := ((splitAt '/' path).foldl (pushSegment (slashes != 0)) []).reverse
  match List.replicate slashes '/' ++ joinWith ['/'] segments with
  | [] => ['.']
  | c :: rest => c :: rest

/-- The path by which the file system knows what a path leads to: any number of slashes at its start
is one. -/
def real (path : List Char) : List Char :=
  if isAbsolute path then '/' :: path.dropWhile (· == '/') else path

/-- `path` seen from the directory `base`. -/
def join (base path : List Char) : List Char :=
  if isAbsolute path then path
  else if base.isEmpty || base.getLast? == some '/' then base ++ path
  else base ++ '/' :: path

/-- A first segment `~` stands for the home directory. -/
def expandHome (home path : List Char) : List Char :=
  match path with
  | '~' :: rest =>
    if rest.isEmpty || isAbsolute rest then
      match dropEndWhile (· == '/') home ++ rest with
      | [] => ['/']
      | c :: expanded => c :: expanded
    else path
  | _ => path

/-- The normal path from the root, for a path seen from `cwd`. -/
def absolute (cwd path : List Char) : List Char :=
  normalise (if isAbsolute path then path else join cwd path)

/-- All but the last segment; slashes at its end are dropped unless it has nothing else. -/
def parent (path : List Char) : List Char :=
  let head := dropEndWhile (· != '/') path
  if head.all (· == '/') then head else dropEndWhile (· == '/') head

/-- A path without empty segments, `.` and slashes at its end; `..` stays. -/
def tidy (path : List Char) : List Char :=
  let segments := (splitAt '/' path).filter (fun segment => !segment.isEmpty && segment != ['.'])
  match List.replicate (rootSlashes path) '/' ++ joinWith ['/'] segments with
  | [] => ['.']
  | c :: rest => c :: rest

/-- The last segment; the root and the current directory have none. -/
def name (path : List Char) : List Char :=
  let path := tidy path
  match cutAtLast? '/' path with
  | some (_, last) => last
  | none => if path = ['.'] then [] else path

end ToolGraph.Path
