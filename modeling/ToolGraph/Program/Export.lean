import ToolGraph.AtomicWrite
import ToolGraph.Program.Artifact

/-!
Writing the artifact of a program, to a stream or to a file. The text is made as a whole before any of
it is written.
-/
namespace ToolGraph.Artifact

inductive WriteFailure where
  /-- The program cannot be assembled. -/
  | program (error : Error)
  /-- The artifact cannot be written. -/
  | file (fault : WriteFault)
  deriving DecidableEq

/-- Writes the artifact to a file, all or nothing. `word` sets its temporary file apart. -/
def writeFile (hazard : AtomicWrite.Hazard) (word path : List Char) (program : Program)
    (tree : FileTree) : Except WriteFailure Unit × FileTree :=
  match assemble program with
  | .ok text =>
    let (result, tree) := AtomicWrite.run hazard (AtomicWrite.temporaryFile path word) path
      (Text.encode text.toList) tree
    (result.mapError .file, tree)
  | .error error => (.error (.program error), tree)

end ToolGraph.Artifact
