import ToolGraph.AtomicWrite
import ToolGraph.Config.Host
import ToolGraph.Number.Literal
import ToolGraph.Settings
import ToolGraph.Json.Printer

/-!
The settings in effect. They come from layers: the command line, the environment, the file of the
project, the file of the user, and the initial values. For every key the first layer that has it
counts.
-/
namespace ToolGraph

/-- Settings that are given directly. Any data may be given; it is checked with the rest. -/
structure Overrides where
  model : Option Value := none
  timeout : Option Value := none

namespace Config

/-- Which file of settings something is about. -/
inductive Layer where
  | user
  | project
  deriving DecidableEq, Repr

def Layer.what : Layer → String
  | .user => "global config"
  | .project => "project config"

def Layer.path (host : Host) : Layer → List Char
  | .user => host.userFile
  | .project => host.projectFile

/-! ### Files -/

def readObject (exhausts : String → Bool) (what path : String) (content : Except FileFault Bytes) :
    Except Error (List (String × Json)) :=
  match content with
  | .error fault => .error (.config (.unreadable what path (.file path fault)))
  | .ok content =>
    match Text.decode? content with
    | none => .error (.bare (.encoding (.ofBytes content)))
    | some text =>
      if exhausts (String.ofList text) then .error (.bare .exhausted)
      else
        match Json.parse (String.ofList text) with
        | .ok (.object members) => .ok members
        | .ok _ => .error (.config (.notObject what path))
        | .error .malformed => .error (.config (.unreadable what path (.json .malformed)))
        | .error .hugeInteger => .error (.bare (.json .hugeInteger))

def readLayer (host : Host) (layer : Layer) (tree : FileTree) :
    Except Error (Option (List (String × Json))) :=
  let path := layer.path host
  if tree.isFile (host.resolve path) then
    (readObject host.exhausts layer.what (String.ofList path)
      (tree.read (host.resolve path))).map some
  else .ok none

/-- Makes a directory and those above it, unless they are there. -/
def makePath (host : Host) (path : List Char) (tree : FileTree) : Except Fault FileTree :=
  match host.refuses (host.resolve path) with
  | some fault => .error fault
  | none => (tree.makeDirectories (host.resolve path)).mapError (.file (String.ofList path))

/-- Makes the directory for files of a kind. -/
def makeDirectory (host : Host) (store : Store) (tree : FileTree) : Except Error FileTree :=
  (makePath host (host.directory store) tree).mapError .bare

def userSettings (host : Host) (tree : FileTree) : Except Error Settings := do
  match ← readLayer host .user tree with
  | none => return .initial
  | some members =>
    match Settings.check (.ofJson (.object members)) with
    | .valid settings => return settings
    | .invalid issues => throw (.config (.invalidFile (String.ofList host.userFile) issues))

def saveUserSettings (host : Host) (settings : Settings) (tree : FileTree) :
    Except Error Unit × FileTree :=
  match makeDirectory host .config tree with
  | .error error => (.error error, tree)
  | .ok tree =>
    let text := settings.toJson.render ⟨some 2, true⟩ ++ "\n"
    match tree.writeText (host.resolve host.userFile) text with
    | (.ok (), tree) => (.ok (), tree)
    | (.error fault, tree) =>
      (.error (.bare (.file (String.ofList host.userFile) fault)), tree)

/-! ### Layers -/

/-- Sections of settings, as data: what each key is set to. -/
structure Sections where
  loader : List (Value × Value)
  cache : List (Value × Value)

namespace Sections

def ofSettings (settings : Settings) : Sections :=
  ⟨(Value.ofJson settings.loader.toJson).entries, (Value.ofJson settings.cache.toJson).entries⟩

/-- Sets keys of a section. -/
def update (entries changes : List (Value × Value)) : List (Value × Value) :=
  changes.foldl (fun entries change => Value.putEntry entries change.1 change.2) entries

/-- The sections that the project sets. What is no object sets nothing. -/
def withProject (sections : Sections) (project : Value) : Sections :=
  ⟨update sections.loader (project.get "loader").entries,
    update sections.cache (project.get "cache").entries⟩

def withLoader (sections : Sections) (key : String) (value : Option Value) : Sections :=
  { sections with
    loader := update sections.loader (value.toList.map (fun value => (.text key, value))) }

def toValue (sections : Sections) : Value :=
  .map [(.text "loader", .map sections.loader), (.text "cache", .map sections.cache)]

end Sections

def environmentModel (host : Host) : Option Value :=
  match host.lookup? "TOOLSCRIBE_DEFAULT_MODEL" with
  | some model => if model.isEmpty then none else some (.text model)
  | none => none

def environmentTimeout (host : Host) : Except Error (Option Value) :=
  match host.lookup? "TOOLSCRIBE_TIMEOUT" with
  | none => .ok none
  | some text =>
    if text.isEmpty then .ok none
    else
      match Number.readFloat? text.toList with
      | some seconds => .ok (some (.float seconds))
      | none => .error (.config (.badTimeout text))

def resolve (host : Host) (overrides : Overrides) (tree : FileTree) : Except Error Settings := do
  let user ← userSettings host tree
  let project ← readLayer host .project tree
  let timeout ← environmentTimeout host
  let sections := (Sections.ofSettings user).withProject
    (.ofJson (.object (project.getD [])))
  let sections := (sections.withLoader "default_model" (environmentModel host)).withLoader
    "timeout" timeout
  let sections := (sections.withLoader "default_model" overrides.model).withLoader
    "timeout" overrides.timeout
  match Settings.check sections.toValue with
  | .valid settings => return settings
  | .invalid issues => throw (.config (.invalid issues))

/-- Makes the directory of the user's settings, which may then be read. -/
def inUserDirectory {α : Type} (host : Host) (read : FileTree → Except Error α)
    (tree : FileTree) : Except Error α × FileTree :=
  match makeDirectory host .config tree with
  | .ok tree => (read tree, tree)
  | .error error => (.error error, tree)

end Config
end ToolGraph
