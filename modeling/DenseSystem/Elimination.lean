import DenseSystem.Derivation

/-! # Elimination

One column at a time: choose a pivot, bring it onto the diagonal, divide its row by it and clear the
column in other rows. The matrix is left as it was in a column that offers no pivot.
-/
namespace DenseSystem

inductive Sweep where
  | below
  | all
deriving DecidableEq

def Sweep.reaches (sweep : Sweep) (pivotRow row : Nat) : Bool :=
  match sweep with
  | below => pivotRow < row
  | all => row ≠ pivotRow

namespace DenseMatrix

variable {α : Type} [Scalar α]

/-- Whether clearing column `k` changes row `i`: rows that already hold a zero there are skipped. -/
def isTarget (m : DenseMatrix α) (k : Nat) (sweep : Sweep) (i : Nat) : Bool :=
  sweep.reaches k i && !Scalar.isZero (m.entry i k)

/-- Every target row lessened by its own multiple of row `k`, with an exact zero in column `k`. -/
def clearColumn (m : DenseMatrix α) (k : Nat) (sweep : Sweep) : DenseMatrix α :=
  ofFn m.rows m.cols fun i j =>
    if !m.isTarget k sweep i || j < k then m.entry i j
    else if j = k then 0
    else m.entry i j - m.entry i k * m.entry k j

@[simp] theorem rows_clearColumn (m : DenseMatrix α) (k : Nat) (sweep : Sweep) :
    (m.clearColumn k sweep).rows = m.rows := rfl

@[simp] theorem cols_clearColumn (m : DenseMatrix α) (k : Nat) (sweep : Sweep) :
    (m.clearColumn k sweep).cols = m.cols := rfl

theorem entry_clearColumn (m : DenseMatrix α) (k : Nat) (sweep : Sweep) {i j : Nat}
    (hi : i < m.rows) (hj : j < m.cols) :
    (m.clearColumn k sweep).entry i j =
      if !m.isTarget k sweep i || j < k then m.entry i j
      else if j = k then 0
      else m.entry i j - m.entry i k * m.entry k j :=
  entry_ofFn _ hi hj

def eliminations (m : DenseMatrix α) (k : Nat) (sweep : Sweep) : List (Step α) :=
  ((List.range m.rows).filter (m.isTarget k sweep)).map fun i =>
    .rowEliminated i k k (m.entry i k)

/-- One column of an elimination, with its pivot on the diagonal. -/
def reduceColumn (work : DenseMatrix α) (k : Nat) (sweep : Sweep) :
    Derivation α (DenseMatrix α) := do
  let p := work.pivotRow k k
  let pivot := work.entry p k
  .record (.pivotSelected k p pivot)
  if isNearZero pivot then .fail (.zeroPivot k)
  else
    .recordAll (if p = k then [] else [.rowsSwapped k p])
    .record (.rowNormalized k pivot)
    let normal := (if p = k then work else work.exchangeRows k p).normalizeRow k pivot
    .recordAll (normal.eliminations k sweep)
    let reduced := normal.clearColumn k sweep
    .record (.snapshot (.afterColumn k) reduced)
    return reduced

/-- The columns from `k` on, `left` of them. -/
def reduceFrom (sweep : Sweep) (k : Nat) (work : DenseMatrix α) :
    Nat → Derivation α (DenseMatrix α)
  | 0 => return work
  | left + 1 => do
    let reduced ← work.reduceColumn k sweep
    reduced.reduceFrom sweep (k + 1) left

def reduce (work : DenseMatrix α) (sweep : Sweep) : Derivation α (DenseMatrix α) :=
  work.reduceFrom sweep 0 work.rows

end DenseMatrix

end DenseSystem
