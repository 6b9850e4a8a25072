/-! # Scalars

Elimination, determinants and residuals use only the operations below, so each is written once and
read twice: over doubles, with their rounding, signed zeros, infinities and NaN, and over the
rationals, where every operation is exact.
-/
namespace DenseSystem

/-- The operations of a number type that the algorithms use. No law is assumed of them. -/
class Scalar (α : Type) extends Zero α, One α, Add α, Sub α, Mul α, Div α, Neg α where
  /-- The value of a sum without terms, from which every sum starts. -/
  emptySum : α
  /-- Magnitudes below this count as zero when a pivot is chosen. -/
  tolerance : α
  abs : α → α
  lt : α → α → Bool
  isZero : α → Bool
  isNaN : α → Bool
  isFinite : α → Bool

/-- Doubles. An empty sum is negative zero, the value that leaves every other one unchanged. -/
instance : Scalar Float where
  zero := 0.0
  one := 1.0
  add := Float.add
  sub := Float.sub
  mul := Float.mul
  div := Float.div
  neg := Float.neg
  emptySum := -0.0
  tolerance := 1e-12
  abs := Float.abs
  lt := Float.lt
  isZero x := x == 0.0
  isNaN := Float.isNaN
  isFinite := Float.isFinite

class Tolerance where
  value : Rat
  pos : 0 < value

/-- Exact rationals, all of them finite, with any tolerance. -/
instance [Tolerance] : Scalar Rat where
  zero := 0
  one := 1
  add := Rat.add
  sub := Rat.sub
  mul := Rat.mul
  div := Rat.div
  neg := Rat.neg
  emptySum := 0
  tolerance := Tolerance.value
  abs x := if x < 0 then -x else x
  lt x y := decide (x < y)
  isZero x := decide (x = 0)
  isNaN _ := false
  isFinite _ := true

variable {α : Type} [Scalar α]

/-- A magnitude below the tolerance. NaN is not near zero. -/
def isNearZero (x : α) : Bool := Scalar.lt (Scalar.abs x) Scalar.tolerance

/-- The sum of a list, added from the left onto the empty sum. -/
def sum (xs : List α) : α := xs.foldl (· + ·) Scalar.emptySum

end DenseSystem
