import ToolGraph.AtomicWrite
import ToolGraph.CommandLine.Run
import ToolGraph.Main
import ToolGraph.OpenApi.Tools
import ToolGraph.Proofs.Artifact.Assembling
import ToolGraph.Proofs.Artifact.Positions
import ToolGraph.Proofs.AtomicWrite
import ToolGraph.Proofs.Block.Identity
import ToolGraph.Proofs.Block.Leading
import ToolGraph.Proofs.CommandLine
import ToolGraph.Proofs.CommandLine.Table
import ToolGraph.Proofs.Config.Precedence
import ToolGraph.Proofs.Config.Validity
import ToolGraph.Proofs.Load.Cached
import ToolGraph.Proofs.Load.Closure
import ToolGraph.Proofs.Load.Exchanged
import ToolGraph.Proofs.Load.Provenance
import ToolGraph.Proofs.Load.Registered
import ToolGraph.Proofs.Load.Reload
import ToolGraph.Proofs.Load.Relocation
import ToolGraph.Proofs.Load.Settled
import ToolGraph.Proofs.Load.Siblings
import ToolGraph.Proofs.Load.Spelling
import ToolGraph.Proofs.Load.Unfetched
import ToolGraph.Proofs.OpenApi.ArgumentSchemas
import ToolGraph.Proofs.OpenApi.Inlined
import ToolGraph.Proofs.OpenApi.Requests
import ToolGraph.Proofs.OpenApi.Versions
import ToolGraph.Proofs.Pointer.Refusals
import ToolGraph.Proofs.Sniffing.Verbatim
import ToolGraph.Proofs.Url.Relative
