import ToolGraph.CommandLine.Surroundings

/-!
Running a command: what it prints, what it writes, and its exit code. A failure prints its message
and nothing else; an unexpected one leaves a report behind.
-/
namespace ToolGraph

/-- What a command comes to before anything is written. -/
structure CommandResult where
  exit : Nat
  printed : Printed
  /-- What is to be written, and the message once that is done. -/
  file : Option (FileText × Printed)
  /-- The failure has to be reported in a file. -/
  unexpected : Bool
  deriving DecidableEq, Repr

namespace CommandResult

def printing (printed : Printed) : CommandResult := ⟨0, printed, none, false⟩

def writing (path text : String) (message : Printed) : CommandResult :=
  ⟨0, {}, some (⟨path, text⟩, message), false⟩

/-- What is shown of a cancellation, which nothing catches. -/
def cancelled : CommandResult := ⟨1, .messageLine "asyncio.exceptions.CancelledError", none, false⟩

def failing (error : Error) : CommandResult :=
  match error.class? with
  | some kind => ⟨kind.exitCode, Output.error (error.message Fault.text), none, false⟩
  | none => if error = .bare .cancelled then cancelled else ⟨1, {}, none, true⟩

def after (result : CommandResult) (printed : Printed) : CommandResult :=
  { result with printed := printed ++ result.printed }

/-- The result with what gets through to a data channel. -/
def upTo (takes : String → Bool) (result : CommandResult) : CommandResult :=
  { result with printed := result.printed.upTo takes }

/-- The command line does not follow the usage. -/
def unusable : CommandResult := ⟨2, {}, none, false⟩

end CommandResult

namespace Command

def versionText : String := "toolscribe 0.1.0"

def unexpected (report : String) : Printed :=
  Output.error s!"Unexpected error. Debug log: {report}"

def orHyphen (text : String) : String := if text.isEmpty then "-" else text

/-! ### Tables -/

def toolHeaders : List String := ["ID", "Name", "Description", "Tools"]

def toolRow (id : String) (tool : Tool) : List String :=
  [id, orHyphen tool.name, orHyphen tool.description, String.intercalate ", " tool.tools]

def toolRows (program : Program) : List (List String) :=
  (Artifact.order program).filterMap (fun id => (program.tool? id).map (toolRow id))

def builtinHeaders : List String := ["Name", "Description", "Arguments"]

def builtinRows : List (List String) :=
  Builtin.all.map (fun builtin =>
    [builtin.name, builtin.description, String.intercalate ", " builtin.arguments.keys])

/-! ### Commands on a program -/

def settle (result : Except Error CommandResult) : CommandResult :=
  match result with
  | .ok result => result
  | .error error => .failing error

def finish (command : Command) (output : Output) (program : Program) : Except Error CommandResult :=
  let count := program.tools.length
  match command with
  | .load _ file => do
    let text ← program.text Output.layout
    match file with
    | none => return .printing (Output.printData text)
    | some file =>
      let path := String.ofList (Path.tidy file.toList)
      return .writing path (text ++ "\n") (output.success s!"Wrote {count} tool(s) to {path}")
  | .assemble _ file => do
    let text ← Artifact.assemble program
    if file = "-" then return .printing { writes := [text] }
    else
      return .writing file text (output.success s!"Assembled {count} tool(s) into {file}")
  | .inspect _ => return .printing (output.printTable toolHeaders (toolRows program))
  | .listTools => return .printing (output.printTable builtinHeaders builtinRows)

def subject? : Command → Option Subject
  | .load subject _ | .assemble subject _ | .inspect subject => some subject
  | .listTools => none

end Command

namespace CommandRequest

def overrides (request : CommandRequest) : Overrides :=
  ⟨request.model.map .text, request.timeout.map .float⟩

def load (settings : LoaderSettings) (subject : Subject) : LoadRequest :=
  { root := .reference subject.reference
    subTool := subject.subTool
    base := ""
    settings }

def conclude (request : CommandRequest) (subject : Subject) (loaded : Except Error Program) :
    CommandResult :=
  (Command.settle (loaded.bind (request.command.finish request.output))).after
    (request.output.debug s!"Loading {subject.reference}")

section surroundings
variable {m : Type → Type} [Monad m] (surroundings : Surroundings m)

def prepare (request : CommandRequest) : m (Except Error Settings) := do
  match ← surroundings.makeDirectory .config with
  | .error error => return .error error
  | .ok () =>
    match ← surroundings.settings request.overrides with
    | .error error => return .error error
    | .ok settings =>
      if settings.cache.enabled then
        return (← surroundings.makeDirectory .cache).map (fun _ => settings)
      else return .ok settings

/-- Loads a program and makes of it what the command asks for. Nothing is written so far. -/
def start (request : CommandRequest) : m CommandResult := do
  match request.command.subject? with
  | none =>
    return .printing (request.output.printTable Command.builtinHeaders Command.builtinRows)
  | some subject =>
    match ← request.prepare surroundings with
    | .error error => return .failing error
    | .ok settings =>
      let loaded ← surroundings.load settings (load settings.loader subject)
      return request.conclude subject loaded

end surroundings
end CommandRequest

structure CommandEnding where
  exit : Nat
  printed : Printed
  deriving DecidableEq, Repr

namespace CommandResult
variable {m : Type → Type} [Monad m] (surroundings : Surroundings m)

/-- The end of a command that fails unexpectedly. Where no report can be left, there is nothing to
point at. -/
def crash (result : CommandResult) : m CommandEnding := do
  match ← surroundings.report with
  | some report => return ⟨1, result.printed ++ Command.unexpected report⟩
  | none => return ⟨1, result.printed⟩

/-- Prints and writes what a command has to. A text that the data channel does not take is an unexpected
failure, behind what was printed before it. -/
def complete (result : CommandResult) : m CommandEnding := do
  if result.unexpected then result.crash surroundings
  else
    match result.file with
    | none =>
      if result.printed.writes.all surroundings.takes then return ⟨result.exit, result.printed⟩
      else (result.upTo surroundings.takes).crash surroundings
    | some (file, message) =>
      if ← surroundings.write file then return ⟨result.exit, result.printed ++ message⟩
      else result.crash surroundings

end CommandResult

def CommandRequest.perform {m : Type → Type} [Monad m] (surroundings : Surroundings m)
    (request : CommandRequest) : m CommandEnding := do
  (← request.start surroundings).complete surroundings

namespace Invocation

/-- Runs a command line in a world up to what is to be written; `tree` holds the files with
settings. -/
def run (invocation : Invocation) (host : Host) (tree : FileTree) (world : World) :
    CommandResult :=
  match invocation with
  | .unusable => .unusable
  | .version => .printing (Output.printData Command.versionText)
  | .command request =>
    (request.start (.ofTree host .calm (Surroundings.loadFrom host world)) tree).1

end Invocation
end ToolGraph
