import ToolGraph.CommandLine.Run

/-! The command line. Files are read from the computer; there is no web here, so that every request fails. -/
namespace ToolGraph.Console

def variableNames : List String :=
  ["XDG_CONFIG_HOME", "XDG_CACHE_HOME", "XDG_DATA_HOME", "TOOLSCRIBE_DEFAULT_MODEL",
    "TOOLSCRIBE_TIMEOUT", "NO_COLOR", "TERM"]

def readVariable (name : String) : IO (Option (String × String)) := do
  let value ← IO.getEnv name
  return value.map (fun value => (name, value))

def isDirectory (path : List Char) : IO Bool := do
  let cwd ← IO.currentDir
  (cwd / String.ofList path).isDir

def readFile (path : List Char) : IO (Except FileFault Bytes) := do
  try
    let content ← IO.FS.readBinFile (String.ofList path)
    return .ok content.toList
  catch fault =>
    if ← isDirectory path then return .error .isDirectory
    match fault with
    | .noFileOrDirectory .. => return .error .notFound
    | _ => return .error .notDirectory

def readHost : IO Host := do
  let environment ← variableNames.mapM readVariable
  let home ← IO.getEnv "HOME"
  let cwd ← IO.currentDir
  let system ← readFile "/proc/sys/kernel/ostype".toList
  let platform := match system with
    | .ok content => Text.trimmed (String.ofList ((Text.decode? content).getD []))
    | .error _ => ""
  return {
    platform
    environment := environment.filterMap id
    home := (home.getD "/").toList
    cwd := cwd.toString.toList }

def readSettings (host : Host) : IO FileTree := do
  let mut tree := FileTree.empty
  for path in [host.resolve host.userFile, host.resolve host.projectFile] do
    match ← readFile path with
    | .ok content => tree := tree.write path content
    | .error _ => pure ()
  return tree

/-! ### Loading -/

def directoriesAmong (paths : List (List Char)) : IO (List (List Char)) :=
  paths.filterM isDirectory

def placeWith (host : Host) (directories : List (List Char)) : Canonical.Place :=
  ⟨directories.contains, host.home, host.cwd⟩

def fetch (host : Host) (location : List Char) : IO (Except Error Fetched) := do
  let directories ← directoriesAmong [Path.absolute host.cwd location]
  match Canonical.location (placeWith host directories) location with
  | .error error => return .error error
  | .ok canonical =>
    if Location.isUrl canonical then
      return .error (.source (String.ofList canonical) (.transport "ConnectError" "no web here"))
    else
      let result ← readFile canonical
      return (result.map (fun content => ⟨canonical, content⟩)).mapError
        (fun fault => .source (String.ofList canonical) (.file fault))

def contextAfter (request : LoadRequest) (host : Host) (load : Load)
    (result : Except Error Fetched) : IO LoadContext := do
  let blind := request.contextAt (placeWith host [])
  let named := match result.bind (Source.read blind.base blind.model) with
    | .ok source => (load.addTools source).destinations blind source
    | .error _ => []
  let directories ← directoriesAmong (named.filter (!Location.isUrl ·))
  return request.contextAt (placeWith host directories)

partial def drain (request : LoadRequest) (host : Host) (load : Load) :
    IO (Except Error Load) := do
  match load.pending with
  | [] => return .ok load
  | location :: _ =>
    let result ← fetch host location
    let context ← contextAfter request host load result
    match load.deliver context location result with
    | .error error => return .error error
    | .ok load => drain request host load

def load (request : LoadRequest) (host : Host) : IO (Except Error Program) := do
  if request.isOver then return .error (Load.timeUp request)
  let blind := request.contextAt (placeWith host [])
  let directories ← match request.rootLocation blind with
    | .ok location => directoriesAmong [location]
    | .error _ => pure []
  match request.rootLocation (request.contextAt (placeWith host directories)) with
  | .error error => return .error error
  | .ok location =>
    let result ← fetch host location
    let context ← contextAfter request host .start result
    match result.bind (Load.begin request context location) with
    | .error error => return .error error
    | .ok (load, entry) =>
      let result ← drain request host load
      return result.map (fun load => load.program request.name entry)

/-! ### Surroundings -/

def makeDirectory (host : Host) (store : Store) : IO (Except Error Unit) := do
  let path := String.ofList (host.directory store)
  try
    IO.FS.createDirAll path
    return .ok ()
  catch _ => return .error (.bare (.file path .notDirectory))

def write (host : Host) (file : FileText) : IO Bool := do
  let path := host.resolve file.path.toList
  let temporary := AtomicWrite.temporaryFile path "0".toList
  try
    IO.FS.createDirAll (String.ofList (Path.parent path))
    IO.FS.writeFile (String.ofList temporary) file.text
    IO.FS.rename (String.ofList temporary) (String.ofList path)
    return true
  catch _ =>
    try IO.FS.removeFile (String.ofList temporary) catch _ => pure ()
    return false

def report (host : Host) : IO (Option String) := do
  let directory := String.ofList host.logDirectory
  let path := s!"{directory}/crash-{← IO.monoMsNow}.log"
  try
    IO.FS.createDirAll directory
    IO.FS.writeFile path "An unexpected failure ended the command.\n"
    return some path
  catch _ => return none

def surroundings (host : Host) : Surroundings IO where
  makeDirectory := makeDirectory host
  settings := fun overrides => return Config.resolve host overrides (← readSettings host)
  load := fun _ request => load request host
  takes := Text.isEncodable
  write := write host
  report := report host

/-- Prints what is left of a command, and gives its exit code. -/
def finish (ending : CommandEnding) : IO UInt32 := do
  IO.print ending.printed.data
  IO.eprint ending.printed.messages
  return UInt32.ofNat ending.exit

end ToolGraph.Console

open ToolGraph in
def main (words : List String) : IO UInt32 := do
  let host ← Console.readHost
  match Invocation.read words with
  | .unusable =>
    IO.eprintln Invocation.usage
    return 2
  | .version => Console.finish ⟨0, Output.printData Command.versionText⟩
  | .command request => Console.finish (← request.perform (Console.surroundings host))
