import ToolGraph.Block.Header
import ToolGraph.Tool.Basic

/-!
The native syntax of tools. Lines that hold `---` alone separate the blocks of a source; a block
starts with a header and goes on with free text, the instructions.
-/
namespace ToolGraph
open Text

/-- A block: the line it starts on, its header, and the lines of its text. -/
structure Block where
  start : Int
  header : Header
  body : List (List Char)

namespace Block

def opened (start : Int) : Block := ⟨start, {}, []⟩

/-- The lines of the text, with line feeds between them. -/
def text (block : Block) : List Char := joinWith ['\n'] block.body

/-- Nothing is recorded and the text is blank. -/
def isEmpty (block : Block) : Bool :=
  block.header.isEmpty && block.body.all (fun line => (trim line).isEmpty)

def isSeparator (line : List Char) : Bool := trim line == ['-', '-', '-']

/-- A comment, which a header skips. -/
def isComment (line : List Char) : Bool :=
  ['#'].isPrefixOf (trim line) && !(['#', '!'].isPrefixOf (trim line))

/-- A line that starts with `#!` begins the text of a block. -/
def isDirective (line : List Char) : Bool := ['#', '!'].isPrefixOf (trim line)

def headerLine? (line : List Char) : Option HeaderLine :=
  if isDirective line then none else HeaderLine.read? line

/-- Reads lines into the current block and the blocks after it. `line` is the number of the first
line, and `inHeader` says that the header of the current block still goes on. -/
def readLines (location : String) (line : Int) (block : Block) (inHeader : Bool) :
    List (List Char) → Except Error (List Block)
  | [] => .ok [block]
  | text :: rest =>
    if isSeparator text then
      (readLines location (line + 1) (opened (line + 1)) true rest).map (block :: ·)
    else if inHeader && isComment text then
      readLines location (line + 1) block true rest
    else
      match (if inHeader then headerLine? text else none) with
      | some entry =>
        match block.header.add entry with
        | .ok header => readLines location (line + 1) { block with header } true rest
        | .error fault => .error (.parse location line fault)
      | none =>
        readLines location (line + 1) { block with body := block.body ++ [text] } false rest

def readAll (content location : String) (firstLine : Int) : Except Error (List Block) :=
  (readLines location firstLine (opened firstLine) true (lines content.toList)).map
    (fun blocks => blocks.filter (!·.isEmpty))

def idAt (location : String) (line : Int) : String := s!"{location}:{line}"

/-- The ids of the named blocks by their names in lower case. No two names may agree. -/
def localNames (location : String) (names : Entries String String) :
    List Block → Except Error (Entries String String)
  | [] => .ok names
  | block :: blocks =>
    let name := block.header.name.getD ""
    if name.isEmpty then localNames location names blocks
    else if names.has (lower name) then
      .error (.parse location block.start (.duplicateName name))
    else localNames location (names.put (lower name) (idAt location block.start)) blocks

def argumentSchema (description : String) : Value :=
  .map [(.text "description", .text description), (.text "type", .text "string")]

def argumentsSchema (arguments : Entries String String) : Entries String Value :=
  [("properties", .map (arguments.map (fun entry =>
      (.text entry.1, argumentSchema entry.2)))),
    ("type", .text "object")]

def tool (location workingDir model : String) (localTools : Entries String String)
    (block : Block) : Tool :=
  let header := block.header
  { name := header.name.getD ""
    description := header.description.getD ""
    maxTokens := header.maxTokens
    modelName := if (header.modelName.getD "").isEmpty then model else header.modelName.getD ""
    cache := header.cache
    jsonResponse := header.jsonResponse
    temperature := header.temperature
    internalPrompt := header.internalPrompt
    arguments := if header.arguments.isEmpty then none else some (argumentsSchema header.arguments)
    tools := header.tools
    instructions := String.ofList (trim block.text)
    id := idAt location block.start
    toolMapping := []
    localTools
    origin := ⟨location, block.start⟩
    workingDir }

/-- The tools of a source, in the order of their blocks. All of them share one table of local
tools, in which the empty name is that of the first tool. -/
def parse (content location workingDir model : String) (firstLine : Int) :
    Except Error (List Tool) := do
  let blocks ← readAll content location firstLine
  match blocks.head? with
  | none => throw (.parse location 0 .noTools)
  | some first =>
    let names ← localNames location [] blocks
    let localTools := names.put "" (idAt location first.start)
    return blocks.map (tool location workingDir model localTools)

end Block
end ToolGraph
