import DenseSystem.DenseMatrix.Basic

/-! # Row operations

The steps of an elimination, each given by the entries of its result.
-/
namespace DenseSystem.DenseMatrix

variable {α : Type}

def exchangeRows [Zero α] (m : DenseMatrix α) (first second : Nat) : DenseMatrix α :=
  ofFn m.rows m.cols fun i j =>
    m.entry (if i = first then second else if i = second then first else i) j

@[simp] theorem rows_exchangeRows [Zero α] (m : DenseMatrix α) (first second : Nat) :
    (m.exchangeRows first second).rows = m.rows := rfl

@[simp] theorem cols_exchangeRows [Zero α] (m : DenseMatrix α) (first second : Nat) :
    (m.exchangeRows first second).cols = m.cols := rfl

theorem entry_exchangeRows [Zero α] (m : DenseMatrix α) (first second : Nat) {i j : Nat}
    (hi : i < m.rows) (hj : j < m.cols) :
    (m.exchangeRows first second).entry i j =
      m.entry (if i = first then second else if i = second then first else i) j :=
  entry_ofFn _ hi hj

/-- Two rows exchanged, both of which must be rows of the matrix. -/
def swapRows [Zero α] (m : DenseMatrix α) (first second : Nat) :
    Except OutOfRange (DenseMatrix α) :=
  if first < m.rows ∧ second < m.rows then .ok (m.exchangeRows first second)
  else .error (.swap first second m.rows)

variable [Scalar α]

/-- Row `k` divided by `pivot` from column `k` on, with an exact one in that column. -/
def normalizeRow (m : DenseMatrix α) (k : Nat) (pivot : α) : DenseMatrix α :=
  ofFn m.rows m.cols fun i j =>
    if i ≠ k ∨ j < k then m.entry i j
    else if j = k then 1
    else m.entry i j / pivot

@[simp] theorem rows_normalizeRow (m : DenseMatrix α) (k : Nat) (pivot : α) :
    (m.normalizeRow k pivot).rows = m.rows := rfl

@[simp] theorem cols_normalizeRow (m : DenseMatrix α) (k : Nat) (pivot : α) :
    (m.normalizeRow k pivot).cols = m.cols := rfl

theorem entry_normalizeRow (m : DenseMatrix α) (k : Nat) (pivot : α) {i j : Nat}
    (hi : i < m.rows) (hj : j < m.cols) :
    (m.normalizeRow k pivot).entry i j =
      if i ≠ k ∨ j < k then m.entry i j else if j = k then 1 else m.entry i j / pivot :=
  entry_ofFn _ hi hj

/-- Row `source` times `factor` subtracted from row `target` from column `column` on, with an exact
zero in that column. -/
def eliminateRow (m : DenseMatrix α) (target source column : Nat) (factor : α) : DenseMatrix α :=
  ofFn m.rows m.cols fun i j =>
    if i ≠ target ∨ j < column then m.entry i j
    else if j = column then 0
    else m.entry i j - factor * m.entry source j

@[simp] theorem rows_eliminateRow (m : DenseMatrix α) (target source column : Nat) (factor : α) :
    (m.eliminateRow target source column factor).rows = m.rows := rfl

@[simp] theorem cols_eliminateRow (m : DenseMatrix α) (target source column : Nat) (factor : α) :
    (m.eliminateRow target source column factor).cols = m.cols := rfl

theorem entry_eliminateRow (m : DenseMatrix α) (target source column : Nat) (factor : α)
    {i j : Nat} (hi : i < m.rows) (hj : j < m.cols) :
    (m.eliminateRow target source column factor).entry i j =
      if i ≠ target ∨ j < column then m.entry i j
      else if j = column then 0
      else m.entry i j - factor * m.entry source j :=
  entry_ofFn _ hi hj

/-- The rows below `pivotRow` lessened by such multiples of it that column `column` vanishes up to
rounding: no zero is written. Rows with a zero factor stay as they are. -/
def subtractBelow (m : DenseMatrix α) (pivotRow column : Nat) : DenseMatrix α :=
  ofFn m.rows m.cols fun i j =>
    let factor := m.entry i column / m.entry pivotRow column
    if i ≤ pivotRow ∨ j < column ∨ Scalar.isZero factor then m.entry i j
    else m.entry i j - factor * m.entry pivotRow j

@[simp] theorem rows_subtractBelow (m : DenseMatrix α) (pivotRow column : Nat) :
    (m.subtractBelow pivotRow column).rows = m.rows := rfl

@[simp] theorem cols_subtractBelow (m : DenseMatrix α) (pivotRow column : Nat) :
    (m.subtractBelow pivotRow column).cols = m.cols := rfl

theorem entry_subtractBelow (m : DenseMatrix α) (pivotRow column : Nat) {i j : Nat}
    (hi : i < m.rows) (hj : j < m.cols) :
    (m.subtractBelow pivotRow column).entry i j =
      let factor := m.entry i column / m.entry pivotRow column
      if i ≤ pivotRow ∨ j < column ∨ Scalar.isZero factor then m.entry i j
      else m.entry i j - factor * m.entry pivotRow j :=
  entry_ofFn _ hi hj

end DenseSystem.DenseMatrix
