/-! Sets of characters given by sorted ranges of code points. -/
namespace ToolGraph.Text

/-- The character lies in one of the closed ranges of code points. -/
def inRanges (ranges : List (Nat × Nat)) (c : Char) : Bool :=
  ranges.any (fun range => decide (range.1 ≤ c.toNat) && decide (c.toNat ≤ range.2))

end ToolGraph.Text
