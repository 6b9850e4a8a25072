import DenseSystem.Pivot

/-! # Rank

The rank of a matrix is the number of pivots that a reduction to echelon form finds.
-/
namespace DenseSystem.DenseMatrix

variable {α : Type} [Scalar α]

/-- Searches a column for a pivot below the rows that have one. If there is one, it is brought up
next to them and the column is subtracted away below it. -/
def echelonStep (work : DenseMatrix α) (found col : Nat) : DenseMatrix α × Nat :=
  match work.nonzeroRow? col found with
  | none => (work, found)
  | some p => ((work.exchangeRows p found).subtractBelow found col, found + 1)

/-- The pivots found once the `left` columns from `col` on are searched as well. Nothing is left to
search when every row has a pivot. -/
def rankFrom (work : DenseMatrix α) (found col : Nat) : Nat → Nat
  | 0 => found
  | left + 1 =>
    if found = work.rows then found
    else
      let (work, found) := work.echelonStep found col
      rankFrom work found (col + 1) left

def rank (m : DenseMatrix α) : Nat := rankFrom m 0 0 m.cols

end DenseSystem.DenseMatrix
