import ToolGraph.Entries
import ToolGraph.Text.Cut

/-!
The words of a command line, sorted into options and positional words. An option is long (`--name`,
`--name=value`) or a letter (`-n`, letters that take no value may stand together, and what follows a
letter that takes one is its value). Behind `--` every word is positional.
-/
namespace ToolGraph
open Text

/-- An option by its spellings. Spellings of one option share its key. -/
structure OptionSpec where
  spellings : List String
  key : String
  takesValue : Bool
  deriving DecidableEq, Repr

/-- The words of a command line. -/
structure Arguments where
  /-- The options in their order. One that takes no value has the empty one. -/
  options : List (String × String)
  words : List String
  deriving DecidableEq, Repr

namespace Arguments

def empty : Arguments := ⟨[], []⟩

def addOption (arguments : Arguments) (key value : String) : Arguments :=
  { arguments with options := (key, value) :: arguments.options }

def addWord (arguments : Arguments) (word : String) : Arguments :=
  { arguments with words := word :: arguments.words }

def value? (arguments : Arguments) (key : String) : Option String :=
  arguments.options.reverse.lookup key

def has (arguments : Arguments) (key : String) : Bool :=
  arguments.options.any (·.1 == key)

def find? (specs : List OptionSpec) (spelling : String) : Option OptionSpec :=
  specs.find? (·.spellings.contains spelling)

/-- What the words after an option may be needed for: its value. -/
inductive Taken where
  /-- Options that are complete. -/
  | complete (options : List (String × String))
  /-- Options, of which the last one takes the next word. -/
  | needs (options : List (String × String)) (key : String)

/-- Reads the letters of a word such as `-qv`. -/
def readLetters (specs : List OptionSpec) : (letters : List Char) → Option Taken
  | [] => some (.complete [])
  | letter :: rest =>
    match find? specs (String.ofList ['-', letter]) with
    | none => none
    | some spec =>
      if spec.takesValue then
        if rest.isEmpty then some (.needs [] spec.key)
        else some (.complete [(spec.key, String.ofList rest)])
      else
        match readLetters specs rest with
        | none => none
        | some (.complete options) => some (.complete ((spec.key, "") :: options))
        | some (.needs options key) => some (.needs ((spec.key, "") :: options) key)

def readLong (specs : List OptionSpec) (word : List Char) : Option Taken :=
  match cutAt? '=' word with
  | some (name, value) =>
    match find? specs (String.ofList name) with
    | some spec =>
      if spec.takesValue then some (.complete [(spec.key, String.ofList value)]) else none
    | none => none
  | none =>
    match find? specs (String.ofList word) with
    | some spec => some (if spec.takesValue then .needs [] spec.key else .complete [(spec.key, "")])
    | none => none

def readOption (specs : List OptionSpec) (word : List Char) : Option Taken :=
  match word with
  | '-' :: '-' :: _ => readLong specs word
  | '-' :: letters => readLetters specs letters
  | _ => none

def isOption (word : String) : Bool :=
  match word.toList with
  | '-' :: _ :: _ => true
  | _ => false

/-- Reads words. With `mixed`, options may follow positional words; otherwise the first positional
word ends the options. What is read is kept reversed in `done`. -/
def readFrom (specs : List OptionSpec) (mixed : Bool) (done : Arguments) :
    (words : List String) → Option Arguments
  | [] => some done
  | word :: rest =>
    if word = "--" then some { done with words := rest.reverse ++ done.words }
    else if isOption word then
      match readOption specs word.toList with
      | none => none
      | some (.complete options) =>
        readFrom specs mixed { done with options := options.reverse ++ done.options } rest
      | some (.needs options key) =>
        match rest with
        | [] => none
        | value :: rest =>
          readFrom specs mixed
            { done with options := (key, value) :: options.reverse ++ done.options } rest
    else if mixed then readFrom specs mixed (done.addWord word) rest
    else some { done with words := rest.reverse ++ word :: done.words }

/-- Reads the words of a command line; none if there is an option that is unknown, lacks its value
or has one that it does not take. -/
def read (specs : List OptionSpec) (mixed : Bool) (words : List String) : Option Arguments :=
  (readFrom specs mixed empty words).map (fun done =>
    ⟨done.options.reverse, done.words.reverse⟩)

end Arguments
end ToolGraph
