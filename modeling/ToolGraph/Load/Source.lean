import ToolGraph.Block.Parser
import ToolGraph.Fetch
import ToolGraph.OpenApi.Tools
import ToolGraph.Program.Artifact

/-! Sources: the tools that the content of one location holds. -/
namespace ToolGraph

structure Source where
  location : List Char
  first : Tool
  others : List Tool
  /-- The references of all tools are resolved already, as in an artifact. -/
  linked : Bool

namespace Source

def tools (source : Source) : List Tool := source.first :: source.others

def select (source : Source) (name : String) : Except Error String :=
  if name.isEmpty then .ok source.first.id
  else
    match source.first.localTools.get? (Text.lower name) with
    | some id => .ok id
    | none => .error (.entryNotFound name (String.ofList source.location))

def ofTools (location : List Char) (linked : Bool) : List Tool → Except Error Source
  | [] => .error (.parse (String.ofList location) 0 .noTools)
  | first :: others => .ok { location, first, others, linked }

def ofProgram (location : List Char) (program : Program) : Except Error Source :=
  match program.entryTool? with
  | none => .error (.bare (.shape (.missingKey program.entry)))
  | some entry =>
    .ok
      { location
        first := entry
        others := (program.ids.filter (· != entry.id)).filterMap program.tool?
        linked := true }

def readText (fetched : Fetched) (workingDir model : String) (text : String) :
    Except Error Source := do
  let location := String.ofList fetched.location
  let tools ←
    match ← Document.openApiVersion fetched.content with
    | some version => do
      let root ← Document.decode text location none
      OpenApi.tools (.map root) (if version = 2 then .two else .three) location workingDir model
    | none => Block.parse text location workingDir model 1
  ofTools fetched.location false tools

/-- Reads fetched content. `base` is the directory for content without one of its own. -/
def read (base : List Char) (model : String) (fetched : Fetched) : Except Error Source := do
  if ← Document.isArtifact fetched.content then
    let program ← Artifact.disassembleBytes fetched.content
    ofProgram fetched.location program
  else
    match Text.decode? fetched.content with
    | none => throw (.parse (String.ofList fetched.location) 0 (.notText (.ofBytes fetched.content)))
    | some text =>
      let workingDir ← OpenApi.malformedUrl (Location.workingDir fetched.location base)
      readText fetched (String.ofList workingDir) model (String.ofList text)

end Source
end ToolGraph
