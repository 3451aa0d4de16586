import ToolGraph.CommandLine.Run
import ToolGraph.Program.Export
import ToolGraph.Proofs.Artifact.Bytes
import ToolGraph.Proofs.Artifact.Refusals

/-!
Which programs can be assembled: those in which the entry and every target is the id of a tool, as far as
the arguments have a form for exchange. A program that cannot be assembled is not written at all.
-/
namespace ToolGraph
open Schema

/-! ### Programs that are read from JSON data -/

namespace Schema

end Schema

namespace Tool

end Tool

namespace Program
variable {program : Program}

/-- Every id that is looked up for the artifact is that of a tool. -/
structure IsWhole (program : Program) : Prop where
  entry : program.entry ∈ program.tools.keys
  targets : ∀ {id tool}, program.tool? id = some tool → ∀ target ∈ tool.targets,
    target ∈ program.tools.keys

def IsWritable (program : Program) : Prop := ∀ {id tool}, program.tool? id = some tool → tool.IsWritable

end Program

namespace Artifact
open Program
variable {program : Program} {ids : List String} {id : String} {error : Error}

/-! ### Tools -/

inductive Refused (program : Program) (ids : List String) (id : String) : Error → Prop where
  | missing (absent : program.tool? id = none) : Refused program ids id (.bare (.shape (.missingKey id)))
  | foreign {tool : Tool} {fault : Fault} (found : program.tool? id = some tool)
      (own : tool.fault? = some fault) : Refused program ids id (.bare fault)
  | dangling {tool : Tool} {target : String} (found : program.tool? id = some tool)
      (member : target ∈ tool.targets) (unknown : target ∉ ids) :
      Refused program ids id (.artifact (.dangling id target))

end Artifact
end ToolGraph
