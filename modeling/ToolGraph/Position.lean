/-! Positions in a list, which may be counted from its end. -/
namespace ToolGraph

/-- The item at a position. Negative positions count from the end, the last item being -1. -/
def itemAt? {α : Type} (items : List α) (position : Int) : Option α :=
  let position := if position < 0 then position + items.length else position
  if position < 0 then none else items[position.toNat]?

end ToolGraph
