import ToolGraph.Entries
import ToolGraph.Fault
import ToolGraph.Path

/-! Where a program keeps its files: by the conventions of the platform, or below the home directory. -/
namespace ToolGraph

structure Host where
  platform : String
  environment : Entries String String
  home : List Char
  cwd : List Char
  /-- What the system answers if a directory is to be made that it does not let be made. -/
  refuses : List Char → Option Fault := fun _ => none
  /-- The JSON texts that are too deep for the stack. -/
  exhausts : String → Bool := fun _ => false

inductive Store where
  | config
  | cache
  | data
  deriving DecidableEq, Repr

namespace Host

def appName : List Char := "toolscribe".toList

def lookup? (host : Host) (name : String) : Option String := host.environment.get? name

def hasBaseDirectories (host : Host) : Bool :=
  host.platform == "Linux" || "BSD".toList.isSuffixOf host.platform.toList

def baseVariable : Store → String
  | .config => "XDG_CONFIG_HOME"
  | .cache => "XDG_CACHE_HOME"
  | .data => "XDG_DATA_HOME"

/-- The base directory in the home directory. -/
def baseDefault : Store → List Char
  | .config => ".config".toList
  | .cache => ".cache".toList
  | .data => ".local/share".toList

def ownDirectory (host : Host) (store : Store) : List Char :=
  let own := Path.join host.home ('.' :: appName)
  match store with
  | .config => own
  | .cache => Path.join own "cache".toList
  | .data => Path.join own "logs".toList

def directory (host : Host) (store : Store) : List Char :=
  if host.hasBaseDirectories then
    let base := (host.lookup? (baseVariable store)).getD ""
    let base :=
      if base.isEmpty then Path.join host.home (baseDefault store) else Path.tidy base.toList
    Path.tidy (Path.join base appName)
  else Path.tidy (host.ownDirectory store)

/-- What a path seen from the current directory leads to. -/
def resolve (host : Host) (path : List Char) : List Char :=
  Path.real (Path.absolute host.cwd path)

def userFile (host : Host) : List Char :=
  Path.join (host.directory .config) "config.json".toList

def projectFile (host : Host) : List Char :=
  Path.tidy (Path.join host.cwd "toolscribe.json".toList)

/-- The directory for reports of unexpected failures. -/
def logDirectory (host : Host) : List Char := Path.join (host.directory .data) "logs".toList

end Host
end ToolGraph
