import DenseSystem.DenseMatrix.RowOperation

/-! # Pivots

Where an elimination takes its next pivot: the largest magnitude of a column, which keeps factors
small, or the first entry that is not near zero, which is enough to count a rank.
-/
namespace DenseSystem.DenseMatrix

variable {α : Type} [Scalar α]

/-- The row, from row `first` on, with the largest magnitude in a column; of equal magnitudes the
first. An entry that is not comparable replaces none and is replaced by none. -/
def pivotRow (m : DenseMatrix α) (col first : Nat) : Nat :=
  (List.range' (first + 1) (m.rows - (first + 1))).foldl
    (fun best i =>
      if Scalar.lt (Scalar.abs (m.entry best col)) (Scalar.abs (m.entry i col)) then i else best)
    first

def findPivotRow (m : DenseMatrix α) (col first : Nat) : Except OutOfRange Nat :=
  if first < m.rows ∧ col < m.cols then .ok (m.pivotRow col first)
  else .error (.pivotSearch first col m.rows m.cols)

/-- The first row, from row `first` on, whose entry in a column is not near zero. -/
def nonzeroRow? (m : DenseMatrix α) (col first : Nat) : Option Nat :=
  (List.range' first (m.rows - first)).find? fun i => !isNearZero (m.entry i col)

end DenseSystem.DenseMatrix
