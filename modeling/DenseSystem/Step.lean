import DenseSystem.Classification

/-! # Steps

The arithmetic of a solution attempt, recorded so that it can be retraced. Rows and columns count
from zero.
-/
namespace DenseSystem

inductive Stage where
  | initial
  | afterColumn (column : Nat)
deriving DecidableEq

inductive Step (α : Type) where
  | classified (classification : Classification)
  | determinant (value : α)
  | pivotSelected (column row : Nat) (value : α)
  | rowsSwapped (first second : Nat)
  /-- Row `row` was divided by `pivot` from its own column on. -/
  | rowNormalized (row : Nat) (pivot : α)
  /-- Row `pivotRow` times `factor` was subtracted from row `target`. -/
  | rowEliminated (target pivotRow column : Nat) (factor : α)
  | snapshot (stage : Stage) (matrix : DenseMatrix α)
  | inverse (matrix : DenseMatrix α)
  | backSubstituted (index : Nat) (value : α)
  | solutionExtracted (solution : List α)
  | residual (row : Nat) (lhs rhs error : α)
  | failed (message : String)

namespace Step

variable {α : Type}

def classification? : Step α → Option Classification
  | classified c => some c
  | _ => none

def determinant? : Step α → Option α
  | determinant value => some value
  | _ => none

end Step

/-- The steps of one attempt in order. A trace that is not enabled stays empty. -/
structure Trace (α : Type) where
  enabled : Bool
  steps : List (Step α) := []

namespace Trace

variable {α : Type}

def record (t : Trace α) (step : Step α) : Trace α :=
  if t.enabled then { t with steps := t.steps ++ [step] } else t

def size (t : Trace α) : Nat := t.steps.length

end Trace

end DenseSystem
