import DenseSystem.Pivot

/-! # Determinant

The determinant of a square matrix is the product of the pivots of its elimination, negated once for
each exchange of rows. It is zero as soon as a column offers no pivot.
-/
namespace DenseSystem.DenseMatrix

variable {α : Type} [Scalar α]

/-- One column of the elimination, and the signed product of the pivots with its own; nothing if
the column offers no pivot. -/
def determinantStep (work : DenseMatrix α) (det : α) (k : Nat) : Option (DenseMatrix α × α) :=
  let p := work.pivotRow k k
  let pivot := work.entry p k
  if isNearZero pivot then none
  else if p = k then some (work.subtractBelow k k, det * pivot)
  else some ((work.exchangeRows p k).subtractBelow k k, -det * pivot)

/-- The determinant when `det` is the signed product of the pivots above row `k` and `left` columns
remain. -/
def determinantFrom (work : DenseMatrix α) (det : α) (k : Nat) : Nat → α
  | 0 => det
  | left + 1 =>
    match work.determinantStep det k with
    | none => 0
    | some (work, det) => determinantFrom work det (k + 1) left

def determinant (m : DenseMatrix α) : Except Error α := do
  m.checkSquare
  return determinantFrom m 1 0 m.rows

end DenseSystem.DenseMatrix
