import ToolGraph.Json.Printer
import ToolGraph.Program.Basic

/-! What is printed: data on one channel, messages for people on the other. -/
namespace ToolGraph

inductive OutputFormat where
  | plain
  | json
  deriving DecidableEq, Repr

structure Output where
  format : OutputFormat
  quiet : Bool
  verbose : Bool
  deriving DecidableEq, Repr

/-- Texts for the data channel, written one after the other, and text for the message channel. -/
structure Printed where
  writes : List String := []
  messages : String := ""
  deriving DecidableEq, Repr

namespace Printed

def append (first second : Printed) : Printed :=
  ⟨first.writes ++ second.writes, first.messages ++ second.messages⟩

instance : Append Printed where
  append := append

def data (printed : Printed) : String := String.join printed.writes

/-- What gets through to a data channel: the texts up to one that it does not take. -/
def upTo (takes : String → Bool) (printed : Printed) : Printed :=
  { printed with writes := printed.writes.takeWhile takes }

def dataLine (text : String) : Printed := { writes := [text ++ "\n"] }

def messageLine (text : String) : Printed := { messages := text ++ "\n" }

end Printed

namespace Output

def layout : Json.Layout := ⟨some 2, false⟩

/-- Colour is unwanted where `NO_COLOR` is set at all, and on a dumb terminal. -/
def refusesColour (environment : Entries String String) : Bool :=
  (environment.get? "NO_COLOR").isSome || environment.get? "TERM" == some "dumb"

def printData (text : String) : Printed := .dataLine text

def printJson (json : Json) : Printed := .dataLine (json.render layout)

/-- A row as an object; of headers that agree the last one counts. -/
def record (headers row : List String) : Json :=
  .object (Entries.ofPairs (headers.zip (row.map .text)))

def tableLine (cells : List String) : String := String.intercalate "\t" cells

def printTable (output : Output) (headers : List String) (rows : List (List String)) : Printed :=
  match output.format with
  | .json => printJson (.list (rows.map (record headers)))
  | .plain => { writes := (headers :: rows).map (fun row => tableLine row ++ "\n") }

def info (output : Output) (message : String) : Printed :=
  if output.quiet then {} else .messageLine message

def success (output : Output) (message : String) : Printed := output.info message

def warning (message : String) : Printed := .messageLine ("Warning: " ++ message)

def error (message : String) : Printed := .messageLine ("Error: " ++ message)

def debug (output : Output) (message : String) : Printed :=
  if output.verbose then .messageLine ("[debug] " ++ message) else {}

end Output
end ToolGraph
