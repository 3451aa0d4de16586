import ToolGraph.CommandLine.Arguments
import ToolGraph.Number.Literal
import ToolGraph.Output

/-! What a command line asks for. -/
namespace ToolGraph

structure Subject where
  reference : String
  subTool : String
  deriving DecidableEq, Repr

inductive Command where
  /-- The program as JSON, on the data channel or into a file. -/
  | load (subject : Subject) (file : Option String)
  /-- The artifact; the file `-` is the data channel. -/
  | assemble (subject : Subject) (file : String)
  /-- A table of the tools of a program. -/
  | inspect (subject : Subject)
  /-- A table of the built-in tools. -/
  | listTools
  deriving DecidableEq, Repr

structure CommandRequest where
  command : Command
  output : Output
  model : Option String
  timeout : Option Binary64

inductive Invocation where
  | version
  | command (request : CommandRequest)
  /-- The command line does not follow the usage. -/
  | unusable

namespace Invocation

def commonOptions : List OptionSpec := [
  ⟨["--version"], "version", false⟩,
  ⟨["--model"], "model", true⟩,
  ⟨["--timeout"], "timeout", true⟩,
  ⟨["--json"], "json", false⟩,
  ⟨["--plain"], "plain", false⟩,
  ⟨["--no-color"], "no-color", false⟩,
  ⟨["--quiet", "-q"], "quiet", false⟩,
  ⟨["--verbose", "-v"], "verbose", false⟩]

def subToolOption : OptionSpec := ⟨["--sub-tool", "-s"], "sub-tool", true⟩

def outputOption : OptionSpec := ⟨["--output", "-o"], "output", true⟩

def readSubject (specs : List OptionSpec) (words : List String) :
    Option (Subject × Option String) :=
  match Arguments.read (subToolOption :: specs) true words with
  | some arguments =>
    match arguments.words with
    | [reference] =>
      some (⟨reference, (arguments.value? "sub-tool").getD ""⟩, arguments.value? "output")
    | _ => none
  | none => none

def readCommand (name : String) (words : List String) : Option Command :=
  match name with
  | "load" =>
    (readSubject [outputOption] words).map (fun subject => .load subject.1 subject.2)
  | "assemble" =>
    (readSubject [outputOption] words).map (fun subject =>
      .assemble subject.1 (subject.2.getD "-"))
  | "inspect" => (readSubject [] words).map (fun subject => .inspect subject.1)
  | "list-tools" =>
    match Arguments.read [] true words with
    | some arguments => if arguments.words.isEmpty then some .listTools else none
    | none => none
  | _ => none

/-- The timeout of a command line, in seconds; none if it is no number. -/
def readTimeout (arguments : Arguments) : Option (Option Binary64) :=
  match arguments.value? "timeout" with
  | none => some none
  | some text => (Number.readFloat? text.toList).map some

def outputOf (arguments : Arguments) : Output :=
  { format := if arguments.has "json" then .json else .plain
    quiet := arguments.has "quiet"
    verbose := arguments.has "verbose" }

/-- The words of a command line. The version is told before anything else is looked at. -/
def read (words : List String) : Invocation :=
  match Arguments.read commonOptions false words with
  | none => .unusable
  | some arguments =>
    if arguments.has "version" then .version
    else
      match readTimeout arguments, arguments.words with
      | some timeout, name :: rest =>
        match readCommand name rest with
        | some order =>
          .command
            { command := order
              output := outputOf arguments
              model := arguments.value? "model"
              timeout }
        | none => .unusable
      | _, _ => .unusable

/-- How the command line is used. -/
def usage : String :=
  "Usage: toolscribe [--model NAME] [--timeout SECONDS] [--json | --plain] [--no-color] [-q] [-v] " ++
    "(load REF [-s NAME] [-o FILE] | assemble REF [-s NAME] [-o FILE] | inspect REF [-s NAME] | " ++
    "list-tools)"

end Invocation
end ToolGraph
