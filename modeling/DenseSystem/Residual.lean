import DenseSystem.DenseMatrix.Basic

/-! # Products and residuals

The residual of an equation is the difference between its two sides at a vector.
-/
namespace DenseSystem

variable {α : Type} [Scalar α]

def dot (x y : List α) : Except Error α :=
  if x.length = y.length then .ok (sum (List.zipWith (· * ·) x y))
  else .error (.dimensionMismatch x.length y.length)

/-- The largest of some magnitudes, zero if there are none, and NaN if one of them is. -/
def largest (xs : List α) : α :=
  xs.foldl (fun worst x => if Scalar.isNaN x || Scalar.lt worst x then x else worst) 0

namespace DenseMatrix

def multiply (m : DenseMatrix α) (x : List α) : Except Error (List α) :=
  if m.cols = x.length then
    (List.range m.rows).mapM fun i => dot ((List.range m.cols).map (m.entry i)) x
  else .error (.dimensionMismatch m.cols x.length)

/-- Of each equation, the left side at `x` minus the right side. -/
def residuals (system : DenseMatrix α) (x : List α) : Except Error (List α) := do
  system.checkAugmented
  let n := system.rows
  if x.length = n then
    (List.range n).mapM fun i => do
      let lhs ← dot ((List.range n).map (system.entry i)) x
      return lhs - system.entry i n
  else .error (.dimensionMismatch n x.length)

def maxResidual (system : DenseMatrix α) (x : List α) : Except Error α := do
  return largest ((← system.residuals x).map Scalar.abs)

end DenseMatrix

end DenseSystem
