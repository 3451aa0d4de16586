import ToolGraph.Text.Blank
import ToolGraph.Text.Cut

/-!
References as an author writes them: `<sub tool> from <source> with <arguments>`, where the parts
around `from` and `with` may be left out.
-/
namespace ToolGraph
open Text

/-- The source that a reference names, and the tool in it; an empty name means its first tool. -/
structure Reference where
  source : String
  subTool : String
  deriving DecidableEq, Repr

namespace Reference

/-- Splits a reference at the first word `from`, then at the first word `with`, whose arguments
are no part of it. -/
def read (text : String) : Reference :=
  let text := trim text.toList
  let (subTool, source) :=
    match cutAtWord? isBlank "from".toList true text with
    | some (before, after) => (trim before, trim after)
    | none => ([], text)
  let source :=
    match cutAtWord? isBlank "with".toList true source with
    | some (before, _) => trim before
    | none => source
  { source := String.ofList source, subTool := String.ofList subTool }

end Reference
end ToolGraph
