import DenseSystem.Elimination

/-! # Inverse

The inverse of a square matrix is what an elimination makes of an identity matrix beside it, once
the matrix itself has become the identity.
-/
namespace DenseSystem.DenseMatrix

variable {α : Type} [Scalar α]

def besideIdentity (m : DenseMatrix α) : DenseMatrix α :=
  ofFn m.rows (2 * m.rows) fun i j =>
    if j < m.rows then m.entry i j else if j = m.rows + i then 1 else 0

def invert (m : DenseMatrix α) : Derivation α (DenseMatrix α) := do
  .ofExcept m.checkSquare
  let start := m.besideIdentity
  .record (.snapshot .initial start)
  let reduced ← start.reduce .all
  let inverse ← .ofExcept (reduced.block 0 m.rows m.rows m.rows)
  .record (.inverse inverse)
  return inverse

def inverse (m : DenseMatrix α) : Except Error (DenseMatrix α) := m.invert.outcome

end DenseSystem.DenseMatrix
