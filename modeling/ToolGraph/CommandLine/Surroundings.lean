import ToolGraph.CommandLine.Request
import ToolGraph.Config.Resolve
import ToolGraph.Load.Run

/-!
What a command does to the computer that it runs on: it reads settings, loads programs, makes
directories and writes files. Any of that may fail.
-/
namespace ToolGraph

structure FileText where
  path : String
  text : String
  deriving DecidableEq, Repr

/-- The operations of a command on its surroundings. -/
structure Surroundings (m : Type → Type) where
  /-- Makes the directory for files of a kind. -/
  makeDirectory : Store → m (Except Error Unit)
  settings : Overrides → m (Except Error Settings)
  load : Settings → LoadRequest → m (Except Error Program)
  /-- Whether a text gets through to the data channel. -/
  takes : String → Bool
  /-- Writes a file, all or nothing. -/
  write : FileText → m Bool
  /-- Leaves a report of an unexpected failure, and says where. -/
  report : m (Option String)

/-- What a command meets with when it writes. -/
structure Circumstances where
  /-- The texts that have an encoding, in files and on the data channel. -/
  takes : String → Bool
  /-- The operations that break down while the file of a command is written. -/
  hazard : AtomicWrite.Hazard
  /-- The word in the name of the temporary file. -/
  word : List Char
  /-- The name of the report. -/
  report : List Char
  /-- The report cannot be filled. -/
  reportBreaks : Bool

namespace Circumstances

def calm : Circumstances where
  takes := Text.isEncodable
  hazard := AtomicWrite.calm
  word := ['0']
  report := "crash.log".toList
  reportBreaks := false

/-- The operations that break down for a text. One without an encoding cannot be written. -/
def hazardFor (circumstances : Circumstances) (text : String) : AtomicWrite.Hazard
  | .write => circumstances.hazard .write || !circumstances.takes text
  | step => circumstances.hazard step

end Circumstances

namespace Surroundings

def makeReportDirectory (host : Host) (tree : FileTree) : Option FileTree :=
  match Config.makeDirectory host .data tree with
  | .error _ => none
  | .ok tree => (Config.makePath host host.logDirectory tree).toOption

def reportFile (host : Host) (circumstances : Circumstances) : List Char :=
  Path.join host.logDirectory circumstances.report

def leaveReport (host : Host) (circumstances : Circumstances) (tree : FileTree) :
    Option String × FileTree :=
  match makeReportDirectory host tree with
  | none => (none, tree)
  | some tree =>
    let path := host.resolve (reportFile host circumstances)
    if tree.isDirectory path then (none, tree)
    else if circumstances.reportBreaks then (none, tree.write path [])
    else
      (some (String.ofList (reportFile host circumstances)),
        tree.write path (Text.encode "An unexpected failure ended the command.\n".toList))

/-- The cache of a command, if it uses one. -/
def cache? (host : Host) (settings : Settings) : Option Cache :=
  if settings.cache.enabled then
    some ⟨String.ofList (host.directory .cache), settings.cache, Shelf.empty⟩
  else none

def loadFrom (host : Host) (world : World) (settings : Settings) (request : LoadRequest) :
    Except Error Program :=
  (Load.run request { world with cache := cache? host settings }).result

/-- Surroundings whose files are those of a tree; what is loaded lies elsewhere. -/
def ofTree (host : Host) (circumstances : Circumstances)
    (load : Settings → LoadRequest → Except Error Program) : Surroundings (StateM FileTree) where
  makeDirectory := fun store tree =>
    match Config.makeDirectory host store tree with
    | .ok tree => (.ok (), tree)
    | .error error => (.error error, tree)
  settings := fun overrides tree => (Config.resolve host overrides tree, tree)
  load := fun settings request tree => (load settings request, tree)
  takes := circumstances.takes
  write := fun file tree =>
    let path := host.resolve file.path.toList
    let (result, tree) := AtomicWrite.run (circumstances.hazardFor file.text)
      (AtomicWrite.temporaryFile path circumstances.word) path (Text.encode file.text.toList) tree
    (result.toBool, tree)
  report := leaveReport host circumstances

end Surroundings
end ToolGraph
