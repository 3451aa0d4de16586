import ToolGraph.CommandLine.Run
import ToolGraph.Proofs.AtomicWrite
import ToolGraph.Proofs.Lists

/-!
How a command ends. It succeeds if its settings, its program, what it makes of the program and the
printing or writing of that all do; else it prints no data but the beginning of a table, leaves its file
alone, and tells what is wrong. A file that it writes holds what it prints without one.
-/
namespace ToolGraph

namespace Command

def file? : Command → Option String
  | .load _ (some file) => some (String.ofList (Path.tidy file.toList))
  | .assemble _ file => if file = "-" then none else some file
  | _ => none

def toData : Command → Command
  | .load subject _ => .load subject none
  | .assemble subject _ => .assemble subject "-"
  | command => command

def isTable : Command → Bool
  | .inspect _ | .listTools => true
  | _ => false

structure Prints (command : Command) (output : Output) (printed : Printed) : Prop where
  silent : printed.messages = ""
  rows : (∃ text, printed.writes = [text]) ∨ command.isTable = true ∧ output.format = .plain

end Command

theorem Printed.append_nothing (printed : Printed) : printed ++ {} = printed := by
  obtain ⟨writes, messages⟩ := printed
  change Printed.mk (writes ++ []) (messages ++ "") = _
  rw [List.append_nil, String.append_empty]

namespace Surroundings
variable {host : Host} {circumstances : Circumstances}
  {load : Settings → LoadRequest → Except Error Program} {tree : FileTree}

theorem get?_write {written : Bool} {after : FileTree} {file : FileText}
    (rooted : Path.isAbsolute host.cwd = true) (whole : '/' ∉ circumstances.word)
    (result : (ofTree host circumstances load).write file tree = (written, after)) :
    after.files.get? (host.resolve file.path.toList) =
      if written then some (Text.encode file.text.toList)
      else tree.files.get? (host.resolve file.path.toList) := by
  have apart : host.resolve file.path.toList ≠ _ :=
    (AtomicWrite.temporaryFile_ne
      (Path.isNormal_real (Path.isNormal_absolute rooted file.path.toList)) whole).symm
  have settled := AtomicWrite.settled_run (circumstances.hazardFor file.text)
    (AtomicWrite.temporaryFile (host.resolve file.path.toList) circumstances.word)
    (host.resolve file.path.toList) (Text.encode file.text.toList) tree
  simp only [ofTree] at result
  generalize AtomicWrite.run (circumstances.hazardFor file.text) _ _ _ tree = run at settled result
  obtain ⟨outcome, left⟩ := run
  cases result
  cases outcome with
  | ok =>
    have same := settled _ apart
    rwa [FileTree.get?_write, if_pos rfl] at same
  | error fault => exact settled _ apart

end Surroundings

/-! ### Commands -/

namespace CommandRequest
variable {host : Host} {circumstances : Circumstances}
  {load : Settings → LoadRequest → Except Error Program} {tree : FileTree}
  {request : CommandRequest} {subject : Subject}

def made (request : CommandRequest) (subject : Subject)
    (load : Settings → LoadRequest → Except Error Program) (settings : Except Error Settings) :
    Except Error CommandResult := do
  let settings ← settings
  let program ← load settings (CommandRequest.load settings.loader subject)
  request.command.finish request.output program

def crashed (host : Host) (circumstances : Circumstances) (printed : Printed) (tree : FileTree) :
    CommandEnding × FileTree :=
  let left := Surroundings.leaveReport host circumstances tree
  (⟨1, printed ++ (left.1.map Command.unexpected).getD {}⟩, left.2)

theorem crash_eq (result : CommandResult) :
    result.crash (.ofTree host circumstances load) tree =
      crashed host circumstances result.printed tree := by
  simp only [CommandResult.crash, bind, StateT.bind, Surroundings.ofTree, crashed]
  obtain ⟨_ | report, left⟩ := Surroundings.leaveReport host circumstances tree
  · simp only [Option.map_none, Option.getD_none, Printed.append_nothing]
    rfl
  · rfl

theorem complete_printing (printed : Printed) :
    (CommandResult.printing printed).complete (.ofTree host circumstances load) tree =
      if printed.writes.all circumstances.takes then (⟨0, printed⟩, tree)
      else crashed host circumstances (printed.upTo circumstances.takes) tree := by
  have plain : ¬ (CommandResult.printing printed).unexpected = true := Bool.false_ne_true
  rw [CommandResult.complete, if_neg plain]
  cases taken : printed.writes.all circumstances.takes with
  | true => exact congrFun (if_pos taken) tree
  | false =>
    refine (congrFun (if_neg ?_) tree).trans (crash_eq _)
    exact ne_true_of_eq_false taken

section
variable (host : Host) (circumstances : Circumstances) (printed : Printed) (tree : FileTree)

theorem writes_crashed :
    (crashed host circumstances printed tree).1.printed.writes = printed.writes := by
  simp only [crashed]
  cases (Surroundings.leaveReport host circumstances tree).1 <;> exact List.append_nil _

end

/-! ### Endings -/

/-- The ways in which a command ends, once its settings are read or not. -/
inductive Ends (host : Host) (circumstances : Circumstances)
    (load : Settings → LoadRequest → Except Error Program) (request : CommandRequest)
    (subject : Subject) (settings : Except Error Settings) (tree : FileTree) :
    CommandEnding × FileTree → Prop where
  | refused {error : Error} {kind : ErrorClass}
      (failed : request.made subject load settings = .error error)
      (known : error.class? = some kind) :
      Ends host circumstances load request subject settings tree
        (⟨kind.exitCode, Output.error (error.message Fault.text)⟩, tree)
  | broken {error : Error} (failed : request.made subject load settings = .error error)
      (unknown : error.class? = none) (own : error ≠ .bare .cancelled) :
      Ends host circumstances load request subject settings tree (crashed host circumstances {} tree)
  | cancelled (failed : request.made subject load settings = .error (.bare .cancelled)) :
      Ends host circumstances load request subject settings tree
        (⟨1, CommandResult.cancelled.printed⟩, tree)
  | shown {printed : Printed} (done : request.made subject load settings = .ok (.printing printed))
      (unnamed : request.command.file? = none)
      (taken : printed.writes.all circumstances.takes = true) :
      Ends host circumstances load request subject settings tree (⟨0, printed⟩, tree)
  | muted {printed : Printed} (done : request.made subject load settings = .ok (.printing printed))
      (unnamed : request.command.file? = none)
      (prints : request.command.Prints request.output printed)
      (held : printed.writes.all circumstances.takes = false) :
      Ends host circumstances load request subject settings tree
        (crashed host circumstances (printed.upTo circumstances.takes) tree)
  | written {path text : String} {message : Printed} {left : FileTree}
      (done : request.made subject load settings = .ok (.writing path text message))
      (named : request.command.file? = some path)
      (data : { request with command := request.command.toData }.made subject load settings =
        .ok (.printing { writes := [text] }))
      (write : (Surroundings.ofTree host circumstances load).write ⟨path, text⟩ tree = (true, left)) :
      Ends host circumstances load request subject settings tree (⟨0, message⟩, left)
  | unwritten {path text : String} {message : Printed} {left : FileTree}
      (done : request.made subject load settings = .ok (.writing path text message))
      (named : request.command.file? = some path)
      (write : (Surroundings.ofTree host circumstances load).write ⟨path, text⟩ tree = (false, left)) :
      Ends host circumstances load request subject settings tree (crashed host circumstances {} left)

section
variable (asks : request.command.subject? = some subject) (silent : request.output.verbose = false)
include asks silent

end

namespace Ends
variable {settings : Except Error Settings} {ending : CommandEnding × FileTree}

section
variable (rooted : Path.isAbsolute host.cwd = true) (whole : '/' ∉ circumstances.word)
include rooted whole

end

end Ends

def bench : Host where
  platform := "Linux"
  environment := []
  home := "/home".toList
  cwd := "/work".toList

/-- A command line without common options. -/
def asking (command : Command) : CommandRequest := ⟨command, ⟨.plain, false, false⟩, none, none⟩

end CommandRequest
end ToolGraph
