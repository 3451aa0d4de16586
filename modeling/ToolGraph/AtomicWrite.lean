import ToolGraph.FileTree

/-!
Writing a file so that it either has all of its new content or is as before: the content goes to a
temporary file next to it, which then takes its place.
-/
namespace ToolGraph

/-- The operations of an atomic write, each of which may fail. -/
inductive WriteStep where
  | makeDirectory
  | create
  | write
  | flush
  | sync
  | close
  | replace
  /-- What is not written yet is written when the file is closed behind a failure. -/
  | lateFlush
  /-- The file is closed behind a failure. -/
  | lateClose
  | remove
  deriving DecidableEq, Repr

inductive WriteFault where
  /-- The file system refuses an operation. -/
  | refused (fault : FileFault)
  /-- An operation breaks down. -/
  | broken (step : WriteStep)
  deriving DecidableEq, Repr

namespace AtomicWrite

/-- The operations that break down. -/
abbrev Hazard := WriteStep → Bool

/-- Nothing breaks down. -/
def calm : Hazard := fun _ => false

/-- What is left to do with the temporary file. -/
inductive Handle where
  /-- It is open, and has content that may not be written yet. -/
  | unwritten
  /-- It is open, and all of its content is written. -/
  | written
  | closed
  deriving DecidableEq, Repr

/-- Closes the file behind a failure: the operation that fails then, if one does. To close it while it
has content that is not written yet is to write that first. -/
def closeLate (hazard : Hazard) : Handle → Option WriteStep
  | .unwritten =>
    if hazard .lateFlush then some .lateFlush
    else if hazard .lateClose then some .lateClose
    else none
  | .written => if hazard .lateClose then some .lateClose else none
  | .closed => none

/-- Leaves the temporary file behind a failure: closes it if it is open, and removes it. It stays where
it cannot be closed. -/
def cleanUp (hazard : Hazard) (temporary : List Char) (handle : Handle) (fault : WriteFault)
    (tree : FileTree) : Except WriteFault Unit × FileTree :=
  match closeLate hazard handle with
  | some step => (.error (.broken step), tree)
  | none => (.error fault, if hazard .remove then tree else tree.remove temporary)

def replace (hazard : Hazard) (temporary path : List Char) (content : Bytes) (tree : FileTree) :
    Except WriteFault Unit × FileTree :=
  if hazard .replace then cleanUp hazard temporary .closed (.broken .replace) tree
  else if tree.isDirectory path then
    cleanUp hazard temporary .closed (.refused .isDirectory) tree
  else (.ok (), (tree.remove temporary).write path content)

/-- Fills the temporary file, which is open and empty. -/
def fill (hazard : Hazard) (temporary path : List Char) (content : Bytes) (tree : FileTree) :
    Except WriteFault Unit × FileTree :=
  if hazard .write then cleanUp hazard temporary .unwritten (.broken .write) tree
  else if hazard .flush then cleanUp hazard temporary .unwritten (.broken .flush) tree
  else
    let tree := tree.write temporary content
    if hazard .sync then cleanUp hazard temporary .written (.broken .sync) tree
    else if hazard .close then cleanUp hazard temporary .closed (.broken .close) tree
    else replace hazard temporary path content tree

/-- Writes `content` to `path` by way of the file `temporary` in the same directory. -/
def run (hazard : Hazard) (temporary path : List Char) (content : Bytes) (tree : FileTree) :
    Except WriteFault Unit × FileTree :=
  if hazard .makeDirectory then (.error (.broken .makeDirectory), tree)
  else
    match tree.makeDirectories (Path.parent path) with
    | .error fault => (.error (.refused fault), tree)
    | .ok tree =>
      if hazard .create then (.error (.broken .create), tree)
      else fill hazard temporary path content (tree.write temporary [])

/-- The temporary file for `path`. A word sets it apart from the other files of the directory. -/
def temporaryFile (path word : List Char) : List Char :=
  Path.join (Path.parent path) ('.' :: Path.name path ++ '.' :: word ++ ".tmp".toList)

end AtomicWrite

namespace FileTree

/-- Writes a text in UTF-8, all or nothing. -/
def writeText (tree : FileTree) (path : List Char) (text : String) :
    Except FileFault Unit × FileTree :=
  let temporary := AtomicWrite.temporaryFile path "0".toList
  match AtomicWrite.run AtomicWrite.calm temporary path (Text.encode text.toList) tree with
  | (.ok (), tree) => (.ok (), tree)
  | (.error (.refused fault), tree) => (.error fault, tree)
  | (.error (.broken _), tree) => (.error .notFound, tree)

end FileTree
end ToolGraph
