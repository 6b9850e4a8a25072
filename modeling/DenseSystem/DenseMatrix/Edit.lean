import DenseSystem.DenseMatrix.RowOperation

/-! # Edits

Changes that a caller makes to a matrix in place. They keep its shape, and one that fails leaves
the matrix as it was.
-/
namespace DenseSystem

inductive Edit (α : Type) where
  | set (row col : Nat) (value : α)
  | setRow (row : Nat) (values : List α)
  | fill (value : α)
  | swapRows (first second : Nat)

inductive Edit.Fault where
  | error (e : Error)
  | outOfRange (e : OutOfRange)

namespace Edit

variable {α : Type} [Zero α]

def apply (m : DenseMatrix α) : Edit α → Except Fault (DenseMatrix α)
  | set row col value => (m.set row col value).mapError .error
  | setRow row values => (m.setRow row values).mapError .outOfRange
  | fill value => .ok (m.fill value)
  | swapRows first second => (m.swapRows first second).mapError .outOfRange

/-- The matrix after a series of edits, some of which may fail. -/
def applyAll (m : DenseMatrix α) (edits : List (Edit α)) : DenseMatrix α :=
  edits.foldl (fun m edit => (edit.apply m).toOption.getD m) m

end Edit

end DenseSystem
