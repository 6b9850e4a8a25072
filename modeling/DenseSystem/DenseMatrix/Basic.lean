import DenseSystem.Scalar
import DenseSystem.Error

/-! # Dense matrices

A matrix holds its entries row by row in one array. Shapes with no row or no column are allowed and
keep both dimensions. A linear system with `n` unknowns is the augmented `n x (n + 1)` matrix of its
coefficients and, in the last column, its right-hand side.
-/
namespace DenseSystem

structure DenseMatrix (α : Type) where
  rows : Nat
  cols : Nat
  data : Array α
  size_eq : data.size = rows * cols

namespace DenseMatrix

variable {α : Type}

/-- Two matrices are equal when their shapes are and their entries are as numbers: NaN differs from
itself and negative zero equals zero. -/
instance [BEq α] : BEq (DenseMatrix α) where
  beq a b := a.rows == b.rows && a.cols == b.cols && a.data == b.data

/-- The entry in row `i` and column `j`, and zero outside of the matrix. -/
def entry [Zero α] (m : DenseMatrix α) (i j : Nat) : α :=
  if j < m.cols then m.data.getD (i * m.cols + j) 0 else 0

def ofFn (rows cols : Nat) (f : Nat → Nat → α) : DenseMatrix α where
  rows := rows
  cols := cols
  data := Array.ofFn (n := rows * cols) fun k => f (k / cols) (k % cols)
  size_eq := by simp

@[simp] theorem rows_ofFn (rows cols : Nat) (f : Nat → Nat → α) : (ofFn rows cols f).rows = rows :=
  rfl

@[simp] theorem cols_ofFn (rows cols : Nat) (f : Nat → Nat → α) : (ofFn rows cols f).cols = cols :=
  rfl

theorem index_lt {rows cols i j : Nat} (hi : i < rows) (hj : j < cols) :
    i * cols + j < rows * cols :=
  Nat.lt_of_lt_of_le (Nat.add_lt_add_left hj _)
    (by rw [← Nat.succ_mul]; exact Nat.mul_le_mul_right _ hi)

@[simp] theorem entry_ofFn [Zero α] {rows cols i j : Nat} (f : Nat → Nat → α) (hi : i < rows)
    (hj : j < cols) : (ofFn rows cols f).entry i j = f i j := by
  have hk := index_lt hi hj
  have hpos : 0 < cols := Nat.zero_lt_of_lt hj
  have hdiv : (i * cols + j) / cols = i := by
    rw [Nat.mul_comm, Nat.mul_add_div hpos, Nat.div_eq_of_lt hj, Nat.add_zero]
  have hmod : (i * cols + j) % cols = j := by
    rw [Nat.mul_comm, Nat.mul_add_mod, Nat.mod_eq_of_lt hj]
  simp [entry, ofFn, hj, Array.getD, hk, hdiv, hmod]

theorem exists_entry_eq [Zero α] (m : DenseMatrix α) {k : Nat} (hk : k < m.data.size) :
    k / m.cols < m.rows ∧ k % m.cols < m.cols ∧ m.data[k] = m.entry (k / m.cols) (k % m.cols) := by
  have hk' : k < m.rows * m.cols := m.size_eq ▸ hk
  have hpos : 0 < m.cols := by
    rcases Nat.eq_zero_or_pos m.cols with h0 | h0
    · simp [h0] at hk'
    · exact h0
  have hj : k % m.cols < m.cols := Nat.mod_lt k hpos
  have hkk : k / m.cols * m.cols + k % m.cols = k := by
    rw [Nat.mul_comm]
    exact Nat.div_add_mod k m.cols
  refine ⟨(Nat.div_lt_iff_lt_mul hpos).2 hk', hj, ?_⟩
  simp [entry, hj, hkk, Array.getD, hk]

/-- A matrix is determined by its shape and its entries. -/
theorem ext_entry [Zero α] {a b : DenseMatrix α} (hr : a.rows = b.rows) (hc : a.cols = b.cols)
    (h : ∀ i < a.rows, ∀ j < a.cols, a.entry i j = b.entry i j) : a = b := by
  have hdata : a.data = b.data := by
    apply Array.ext
    · rw [a.size_eq, b.size_eq, hr, hc]
    · intro k ha hb
      obtain ⟨hi, hj, hentry⟩ := a.exists_entry_eq ha
      obtain ⟨-, -, hentry'⟩ := b.exists_entry_eq hb
      rw [hentry, hentry', h _ hi _ hj, hc]
  cases a
  cases b
  simp only [mk.injEq]
  exact ⟨hr, hc, hdata⟩

/-- Matrices of one shape are equal as soon as their entries are equal as numbers. -/
theorem beq_of_entry [Zero α] [BEq α] {a b : DenseMatrix α} (hr : a.rows = b.rows)
    (hc : a.cols = b.cols)
    (h : ∀ i < a.rows, ∀ j < a.cols, (a.entry i j == b.entry i j) = true) : (a == b) = true := by
  have hdata : (a.data == b.data) = true := by
    have hsize : a.data.size = b.data.size := by rw [a.size_eq, b.size_eq, hr, hc]
    refine Array.isEqv_iff_rel.mpr ⟨hsize, fun k ha => ?_⟩
    obtain ⟨hi, hj, hentry⟩ := a.exists_entry_eq ha
    obtain ⟨-, -, hentry'⟩ := b.exists_entry_eq (hsize ▸ ha)
    rw [hentry, hentry', ← hc]
    exact h _ hi _ hj
  change (a.rows == b.rows && a.cols == b.cols && a.data == b.data) = true
  rw [hr, hc, hdata, beq_self_eq_true, beq_self_eq_true]
  rfl

theorem ofFn_entry [Zero α] (m : DenseMatrix α) : ofFn m.rows m.cols m.entry = m :=
  ext_entry rfl rfl fun _ hi _ hj => entry_ofFn _ hi hj

def ofArray (data : Array α) (rows cols : Nat) : Except Error (DenseMatrix α) :=
  if h : data.size = rows * cols then .ok ⟨rows, cols, data, h⟩
  else .error (.invalidShape rows cols .dataLength)

/-- A matrix from its rows, which must have the length of the first. -/
def ofRows (rows : List (List α)) : Except Error (DenseMatrix α) :=
  let width := (rows.head?.map List.length).getD 0
  if rows.all (·.length == width) then ofArray rows.flatten.toArray rows.length width
  else .error (.invalidShape rows.length width .raggedRows)

def zeros [Zero α] (rows cols : Nat) : DenseMatrix α := ofFn rows cols fun _ _ => 0

def identity [Zero α] [One α] (n : Nat) : DenseMatrix α :=
  ofFn n n fun i j => if i = j then 1 else 0

/-- The entries row by row; none when the rows are empty. -/
def toRows [Zero α] (m : DenseMatrix α) : List (List α) :=
  if m.cols = 0 then []
  else (List.range m.rows).map fun i => (List.range m.cols).map (m.entry i)

def isSquare (m : DenseMatrix α) : Bool := m.rows == m.cols

def isAugmented (m : DenseMatrix α) : Bool := 1 ≤ m.rows && m.cols == m.rows + 1

def isEmpty (m : DenseMatrix α) : Bool := m.data.isEmpty

def isFinite [Scalar α] (m : DenseMatrix α) : Bool := m.data.all Scalar.isFinite

def checkSquare (m : DenseMatrix α) : Except Error Unit :=
  if m.isSquare then .ok () else .error (.notSquare m.rows m.cols)

def checkAugmented (m : DenseMatrix α) : Except Error Unit :=
  if m.isAugmented then .ok () else .error (.invalidShape m.rows m.cols .notAugmented)

def checkIndex (m : DenseMatrix α) (row col : Nat) : Except Error Unit :=
  if row < m.rows ∧ col < m.cols then .ok ()
  else .error (.indexOutOfBounds row col m.rows m.cols)

def checkRow (m : DenseMatrix α) (row : Nat) : Except OutOfRange Unit :=
  if row < m.rows then .ok () else .error (.row row m.rows)

variable [Zero α]

def get (m : DenseMatrix α) (row col : Nat) : Except Error α := do
  m.checkIndex row col
  return m.entry row col

def set (m : DenseMatrix α) (row col : Nat) (value : α) : Except Error (DenseMatrix α) := do
  m.checkIndex row col
  return ofFn m.rows m.cols fun i j => if i = row ∧ j = col then value else m.entry i j

def row (m : DenseMatrix α) (i : Nat) : Except OutOfRange (List α) := do
  m.checkRow i
  return (List.range m.cols).map (m.entry i)

/-- The matrix with the first entries of a row replaced, as many as there are values and columns. -/
def setRow (m : DenseMatrix α) (row : Nat) (values : List α) :
    Except OutOfRange (DenseMatrix α) := do
  m.checkRow row
  return ofFn m.rows m.cols fun i j => if i = row then values.getD j (m.entry i j) else m.entry i j

def fill (m : DenseMatrix α) (value : α) : DenseMatrix α := ofFn m.rows m.cols fun _ _ => value

def column (m : DenseMatrix α) (j : Nat) : Except Error (List α) :=
  if j < m.cols then .ok ((List.range m.rows).map (m.entry · j))
  else .error (.indexOutOfBounds 0 j m.rows m.cols)

/-- The `rows x cols` matrix whose first entry is the one at `row`, `col`. -/
def block (m : DenseMatrix α) (row col rows cols : Nat) : Except Error (DenseMatrix α) :=
  if row + rows ≤ m.rows ∧ col + cols ≤ m.cols then
    .ok (ofFn rows cols fun i j => m.entry (row + i) (col + j))
  else .error (.indexOutOfBounds (row + rows) (col + cols) m.rows m.cols)

def coefficients (m : DenseMatrix α) : Except Error (DenseMatrix α) := do
  m.checkAugmented
  m.block 0 0 m.rows m.rows

def rhs (m : DenseMatrix α) : Except Error (List α) := do
  m.checkAugmented
  m.column m.rows

def augment (m : DenseMatrix α) (rhs : List α) : Except Error (DenseMatrix α) := do
  m.checkSquare
  if rhs.length = m.rows then
    return ofFn m.rows (m.rows + 1) fun i j => if j < m.rows then m.entry i j else rhs.getD i 0
  else
    .error (.dimensionMismatch m.rows rhs.length)

end DenseMatrix

end DenseSystem
