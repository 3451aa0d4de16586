import ToolGraph.Entries
import ToolGraph.Fault
import ToolGraph.Path
import ToolGraph.Text.Encoding

/-! Files and directories as a value. What lies above a file or a directory is a directory. -/
namespace ToolGraph

structure FileTree where
  files : Entries (List Char) Bytes
  directories : List (List Char)

namespace FileTree

def empty : FileTree := ⟨[], []⟩

def real (tree : FileTree) : FileTree :=
  ⟨tree.files.map (fun file => (Path.real file.1, file.2)), tree.directories.map Path.real⟩

/-- The directories above a path, the nearest first. `bound` bounds their number. -/
def above : (bound : Nat) → List Char → List (List Char)
  | 0, _ => []
  | bound + 1, path =>
    if Path.parent path = path then [] else Path.parent path :: above bound (Path.parent path)

def ancestors (path : List Char) : List (List Char) := above path.length path

def isFile (tree : FileTree) (path : List Char) : Bool := tree.files.has path

def isDirectory (tree : FileTree) (path : List Char) : Bool :=
  path == ['/'] || tree.directories.contains path ||
    (tree.directories ++ tree.files.keys).any (fun other => (ancestors other).contains path)

def read (tree : FileTree) (path : List Char) : Except FileFault Bytes :=
  match tree.files.get? path with
  | some content => .ok content
  | none =>
    if tree.isDirectory path then .error .isDirectory
    else if (ancestors path).any tree.isFile then .error .notDirectory
    else .error .notFound

def isDirectoryAt (tree : FileTree) (path : List Char) : Bool :=
  tree.real.isDirectory (Path.real path)

def readAt (tree : FileTree) (path : List Char) : Except FileFault Bytes :=
  tree.real.read (Path.real path)

def write (tree : FileTree) (path : List Char) (content : Bytes) : FileTree :=
  { tree with files := tree.files.put path content }

def remove (tree : FileTree) (path : List Char) : FileTree :=
  { tree with files := tree.files.erase path }

/-- Makes a directory and those above it, unless they are there or a file is in their place. -/
def makeDirectories (tree : FileTree) (path : List Char) : Except FileFault FileTree :=
  if tree.isFile path then .error .exists
  else if (ancestors path).any tree.isFile then .error .notDirectory
  else if tree.isDirectory path then .ok tree
  else .ok { tree with directories := tree.directories ++ [path] }

/-- Everything below a directory, the directories with a slash at their end, in the order of the
code points. -/
def below (tree : FileTree) (root : List Char) : List (List Char) :=
  let files := tree.files.keys
  let directories := (tree.directories ++ (tree.directories ++ files).flatMap ancestors).eraseDups
  let inside (path : List Char) : Bool := (ancestors path).contains root
  (files.filter inside ++ (directories.filter inside).map (· ++ ['/'])).mergeSort
    (fun left right => decide (String.ofList left ≤ String.ofList right))

end FileTree
end ToolGraph
