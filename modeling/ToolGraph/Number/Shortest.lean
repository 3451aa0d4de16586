import ToolGraph.Number.Binary64

/-!
The shortest decimal text of a number: the fewest digits that read back as the same number, and of
these the nearest to it.
-/
namespace ToolGraph

/-- A decimal `digits * 10 ^ exponent`. -/
structure Decimal where
  digits : Nat
  exponent : Int
  deriving DecidableEq, Repr

namespace Magnitude

/-- The value and the two halfway points to its neighbours, in quarters of a unit. The lower
neighbour of a power of two is nearer than the upper one. -/
def quarters (magnitude : Magnitude) : Nat := 4 * magnitude.units

def lowerHalfway (magnitude : Magnitude) : Nat :=
  magnitude.quarters -
    (if magnitude.mantissa = 1 <<< 52 ∧ magnitude.scale ≠ 0 then 1 <<< magnitude.scale
      else 2 <<< magnitude.scale)

def upperHalfway (magnitude : Magnitude) : Nat :=
  magnitude.quarters + 2 <<< magnitude.scale

/-- A ratio of quarters reads back as the magnitude. A halfway point goes to the even mantissa. -/
def readsBack (magnitude : Magnitude) (numerator denominator : Nat) : Bool :=
  if magnitude.mantissa % 2 = 0 then
    decide (magnitude.lowerHalfway * denominator ≤ numerator) &&
      decide (numerator ≤ magnitude.upperHalfway * denominator)
  else
    decide (magnitude.lowerHalfway * denominator < numerator) &&
      decide (numerator < magnitude.upperHalfway * denominator)

/-- `10 ^ exponent` as a quotient. -/
def powerOfTen (exponent : Int) : Nat × Nat :=
  if 0 ≤ exponent then (tenTo exponent.toNat, 1) else (1, tenTo (-exponent).toNat)

/-- The multiple of `10 ^ exponent` that reads back as the magnitude and is nearest to it, if one
does; of two as near, the even one. -/
def onGrid? (magnitude : Magnitude) (exponent : Int) : Option Decimal :=
  let (up, down) := powerOfTen exponent
  let step := 4 * unitsPerOne * up
  let value := magnitude.quarters * down
  let below := value / step
  let belowFits := magnitude.readsBack (below * step) down
  let aboveFits := magnitude.readsBack ((below + 1) * step) down
  let nearest := roundQuotient value step
  if belowFits && aboveFits then some ⟨nearest, exponent⟩
  else if belowFits then some ⟨below, exponent⟩
  else if aboveFits then some ⟨below + 1, exponent⟩
  else none

def decimalExponent (magnitude : Magnitude) : Int :=
  let estimate := Int.fdiv (((magnitude.units.log2 : Int) - 1074) * 30103) 100000
  let atMost (exponent : Int) : Bool :=
    decide ((powerOfTen exponent).1 * unitsPerOne ≤ magnitude.units * (powerOfTen exponent).2)
  if atMost (estimate + 1) then estimate + 1
  else if atMost estimate then estimate
  else estimate - 1

def firstOnGrid (magnitude : Magnitude) : (grids : Nat) → (exponent : Int) → Decimal
  | 0, exponent => ⟨roundQuotient (magnitude.units * (powerOfTen exponent).2)
      (unitsPerOne * (powerOfTen exponent).1), exponent⟩
  | grids + 1, exponent =>
    match magnitude.onGrid? exponent with
    | some decimal => decimal
    | none => firstOnGrid magnitude grids (exponent - 1)

/-- Seventeen digits always suffice. -/
def shortest (magnitude : Magnitude) : Decimal :=
  magnitude.firstOnGrid 17 magnitude.decimalExponent

end Magnitude

namespace Decimal

def dropZeros : (steps : Nat) → Decimal → Decimal
  | 0, decimal => decimal
  | steps + 1, decimal =>
    if decimal.digits ≠ 0 ∧ decimal.digits % 10 = 0 then
      dropZeros steps ⟨decimal.digits / 10, decimal.exponent + 1⟩
    else decimal

def exponentText (exponent : Int) : String :=
  let digits := toString exponent.natAbs
  (if exponent < 0 then "-" else "+") ++ (if digits.length < 2 then "0" ++ digits else digits)

/-- Positional from `0.0001` on and below `10 ^ 16`, else with an exponent. There is always a
point or an exponent. -/
def toText (decimal : Decimal) : String :=
  let decimal := dropZeros 20 decimal
  let digits := (toString decimal.digits).toList
  let count : Int := digits.length
  let leading := count + decimal.exponent - 1
  if -4 ≤ leading ∧ leading < 16 then
    if leading < 0 then
      "0." ++ String.ofList (List.replicate (-leading - 1).toNat '0' ++ digits)
    else if 0 ≤ decimal.exponent then
      String.ofList (digits ++ List.replicate decimal.exponent.toNat '0') ++ ".0"
    else
      String.ofList (digits.take (leading + 1).toNat) ++ "." ++
        String.ofList (digits.drop (leading + 1).toNat)
  else
    String.ofList (digits.take 1) ++
      (if digits.length = 1 then "" else "." ++ String.ofList (digits.drop 1)) ++
      "e" ++ exponentText leading

end Decimal

namespace Binary64

def finiteText (negative : Bool) (magnitude : Magnitude) : String :=
  (if negative then "-" else "") ++
    (if magnitude.mantissa = 0 then "0.0" else magnitude.shortest.toText)

/-- The text of a number in messages and lists. -/
def toText : Binary64 → String
  | .nan => "nan"
  | .infinite negative => if negative then "-inf" else "inf"
  | .finite negative magnitude => finiteText negative magnitude

end Binary64
end ToolGraph
