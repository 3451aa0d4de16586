/-!
Binary floating-point numbers of 64 bits, as exact data. A finite magnitude is a whole number of
units of `2 ^ -1074`, so that every question about it is one about natural numbers.
-/
namespace ToolGraph

/-- A finite magnitude, `mantissa * 2 ^ scale` units. The mantissa has 53 bits, or fewer at the
lowest scale, so that each magnitude has one form. -/
structure Magnitude where
  mantissa : Nat
  scale : Nat
  canonical : mantissa < 1 <<< 53 ∧ scale ≤ 2045 ∧ (scale = 0 ∨ 1 <<< 52 ≤ mantissa)
  deriving DecidableEq

namespace Magnitude

/-- How many units of `2 ^ -1074` make one. -/
def unitsPerOne : Nat := 1 <<< 1074

def zero : Magnitude := ⟨0, 0, by decide⟩

def ofParts? (mantissa scale : Nat) : Option Magnitude :=
  if canonical : mantissa < 1 <<< 53 ∧ scale ≤ 2045 ∧ (scale = 0 ∨ 1 <<< 52 ≤ mantissa) then
    some ⟨mantissa, scale, canonical⟩
  else none

def units (magnitude : Magnitude) : Nat := magnitude.mantissa <<< magnitude.scale

end Magnitude

def tenTo (exponent : Nat) : Nat := Nat.pow 10 exponent

/-- A quotient of natural numbers, rounded to the nearest one; a half goes to the even one. -/
def roundQuotient (numerator denominator : Nat) : Nat :=
  let quotient := numerator / denominator
  let twice := 2 * (numerator % denominator)
  if twice < denominator then quotient
  else if denominator < twice then quotient + 1
  else quotient + quotient % 2

inductive Binary64 where
  | nan
  | infinite (negative : Bool)
  | finite (negative : Bool) (magnitude : Magnitude)
  deriving DecidableEq

namespace Binary64

def zero : Binary64 := .finite false .zero

/-- The number nearest to `numerator / denominator` units; a half goes to the even mantissa. -/
def ofUnits (negative : Bool) (numerator denominator : Nat) : Binary64 :=
  let scale := (numerator / denominator).log2 - 52
  let mantissa := roundQuotient numerator (denominator <<< scale)
  let rounded :=
    if mantissa = 1 <<< 53 then Magnitude.ofParts? (1 <<< 52) (scale + 1)
    else Magnitude.ofParts? mantissa scale
  match rounded with
  | some magnitude => .finite negative magnitude
  | none => .infinite negative

/-- The number nearest to `numerator / denominator`. -/
def ofRatio (negative : Bool) (numerator denominator : Nat) : Binary64 :=
  ofUnits negative (numerator * Magnitude.unitsPerOne) denominator

/-- The number nearest to `digits * 10 ^ exponent`. An exponent far outside the range is not
computed with. -/
def ofDecimal (negative : Bool) (digits : Nat) (exponent : Int) : Binary64 :=
  if digits = 0 then .finite negative .zero
  else
    let bits : Int := digits.log2
    if 1100 < bits + 3 * exponent ∧ 0 < exponent then .infinite negative
    else if bits + 1 + 3 * exponent < -1100 ∧ exponent < 0 then .finite negative .zero
    else if 0 ≤ exponent then ofRatio negative (digits * tenTo exponent.toNat) 1
    else ofRatio negative digits (tenTo (-exponent).toNat)

def ofInt (value : Int) : Binary64 := ofRatio (decide (value < 0)) value.natAbs 1

def isNegative : Binary64 → Bool
  | .nan => false
  | .infinite negative | .finite negative _ => negative

def isFinite : Binary64 → Bool
  | .finite .. => true
  | _ => false

/-- The exact value in units of `2 ^ -1074`. -/
def units? : Binary64 → Option Int
  | .finite negative magnitude =>
    some (if negative then -(magnitude.units : Int) else magnitude.units)
  | _ => none

def toInt? (number : Binary64) : Option Int :=
  match number.units? with
  | some units => if units % Magnitude.unitsPerOne = 0 then some (units / Magnitude.unitsPerOne) else none
  | none => none

/-- Equality of values: both zeros are equal, and not-a-number equals nothing. -/
def same (left right : Binary64) : Bool :=
  match left, right with
  | .nan, _ | _, .nan => false
  | .infinite l, .infinite r => l == r
  | .finite .., .finite .. => left.units? == right.units?
  | _, _ => false

def isZero (number : Binary64) : Bool := number.units? == some 0

/-- The number is at most zero; not-a-number is not. -/
def isAtMostZero : Binary64 → Bool
  | .nan => false
  | .infinite negative => negative
  | .finite negative magnitude => negative || magnitude.mantissa == 0

def neg : Binary64 → Binary64
  | .nan => .nan
  | .infinite negative => .infinite (!negative)
  | .finite negative magnitude => .finite (!negative) magnitude

def mul (left right : Binary64) : Binary64 :=
  let negative := left.isNegative != right.isNegative
  match left, right with
  | .nan, _ | _, .nan => .nan
  | .finite _ l, .finite _ r => ofUnits negative (l.units * r.units) Magnitude.unitsPerOne
  | _, _ => if left.isZero || right.isZero then .nan else .infinite negative

def add (left right : Binary64) : Binary64 :=
  match left, right with
  | .nan, _ | _, .nan => .nan
  | .infinite l, .infinite r => if l = r then .infinite l else .nan
  | .infinite l, .finite .. => .infinite l
  | .finite .., .infinite r => .infinite r
  | .finite l a, .finite r b =>
    let sum : Int :=
      (if l then -(a.units : Int) else a.units) + (if r then -(b.units : Int) else b.units)
    ofUnits (if sum = 0 then l && r else decide (sum < 0)) sum.natAbs 1

end Binary64
end ToolGraph
