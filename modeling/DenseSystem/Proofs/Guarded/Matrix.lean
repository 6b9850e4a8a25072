import Mathlib.Tactic
import DenseSystem.Proofs.Guarded.Basic
import DenseSystem.Proofs.Elimination.Column
import DenseSystem.Proofs.Solver.Check

/-! # Guarded matrix operations

Row operations cell by cell, searches for a pivot entry by entry, and copies slice by slice. Inside of
a matrix they pass all guards, and their loops have the results that the operations are given by.
-/
namespace DenseSystem

namespace DenseMatrix

variable {α : Type} [Zero α] {m : DenseMatrix α} {row first last i j : ℕ} {value : ℕ → α}

def replaceCells (m : DenseMatrix α) (row first last : ℕ) (value : ℕ → α) : DenseMatrix α :=
  ofFn m.rows m.cols fun i j => if i = row ∧ first ≤ j ∧ j < last then value j else m.entry i j

@[simp] theorem rows_replaceCells : (m.replaceCells row first last value).rows = m.rows := rfl

@[simp] theorem cols_replaceCells : (m.replaceCells row first last value).cols = m.cols := rfl

theorem entry_replaceCells (hi : i < m.rows) (hj : j < m.cols) :
    (m.replaceCells row first last value).entry i j =
      if i = row ∧ first ≤ j ∧ j < last then value j else m.entry i j :=
  entry_ofFn _ hi hj

theorem replaceCells_self : m.replaceCells row first first value = m := by
  refine ext_entry rfl rfl ?_
  intro i (hi : i < m.rows) j (hj : j < m.cols)
  rw [entry_replaceCells hi hj, if_neg (by omega)]

theorem replaceCells_succ (hfirst : first ≤ j) :
    (m.replaceCells row first j value).replaceCells row j (j + 1) (fun _ => value j) =
      m.replaceCells row first (j + 1) value := by
  refine ext_entry rfl rfl ?_
  intro i (hi : i < m.rows) j' (hj' : j' < m.cols)
  have hi' : i < (m.replaceCells row first j value).rows := hi
  have hj'' : j' < (m.replaceCells row first j value).cols := hj'
  rw [entry_replaceCells hi' hj'', entry_replaceCells hi hj', entry_replaceCells hi hj']
  by_cases hrow' : i = row
  · rcases lt_trichotomy j' j with hlt | rfl | hgt
    · rw [if_neg (by omega)]
      exact if_congr (by omega) rfl rfl
    · rw [if_pos (by omega), if_pos (by omega)]
    · rw [if_neg (by omega), if_neg (by omega), if_neg (by omega)]
  · rw [if_neg (by omega), if_neg (by omega), if_neg (by omega)]

theorem map_range_eq_ofFn {β : Type} (n : ℕ) (f : ℕ → β) :
    (List.range n).map f = List.ofFn fun i : Fin n => f i :=
  List.ext_getElem (by simp) (by simp)

theorem data_ofFn {β : Type} (rows cols : ℕ) (f : ℕ → ℕ → β) :
    (ofFn rows cols f).data =
      ((List.range rows).map fun i => (List.range cols).map (f i)).flatten.toArray := by
  apply Array.toList_inj.mp
  change (Array.ofFn (n := rows * cols) fun k => f (k / cols) (k % cols)).toList = _
  rw [Array.toList_ofFn, List.ofFn_mul]
  simp only [map_range_eq_ofFn]
  congr 2
  funext i
  congr 1
  funext j
  rw [Nat.mul_comm, Nat.mul_add_div j.pos, Nat.div_eq_of_lt j.isLt, Nat.mul_add_mod,
    Nat.mod_eq_of_lt j.isLt, Nat.add_zero]

end DenseMatrix

namespace Guarded

open DenseMatrix

variable {α : Type} [Scalar α] {m : DenseMatrix α} {i j k row col first second : ℕ}

def read (m : DenseMatrix α) (i j : ℕ) : Guarded α := do
  require (i < m.rows ∧ j < m.cols) (.cell i j m.rows m.cols)
  return m.entry i j

def write (m : DenseMatrix α) (i j : ℕ) (value : α) : Guarded (DenseMatrix α) := do
  require (i < m.rows ∧ j < m.cols) (.cell i j m.rows m.cols)
  return m.replaceCells i j (j + 1) fun _ => value

theorem read_eq (hi : i < m.rows) (hj : j < m.cols) : read m i j = .ok (m.entry i j) := by
  rw [read, require_of ⟨hi, hj⟩]
  rfl

theorem write_replaceCells {value : ℕ → α} (hrow : row < m.rows) (hfirst : first ≤ j)
    (hj : j < m.cols) :
    write (m.replaceCells row first j value) row j (value j) =
      .ok (m.replaceCells row first (j + 1) value) := by
  rw [write, require_of ⟨hrow, hj⟩]
  exact congrArg Except.ok (replaceCells_succ hfirst)

theorem writeRow_eq {body : DenseMatrix α → ℕ → Guarded (DenseMatrix α)} {value : ℕ → α}
    (hrow : row < m.rows) (hfirst : first ≤ m.cols)
    (h : ∀ j, first ≤ j → j < m.cols →
      body (m.replaceCells row first j value) j =
        write (m.replaceCells row first j value) row j (value j)) :
    (List.range' first (m.cols - first)).foldlM body m =
      .ok (m.replaceCells row first m.cols value) := by
  apply loop_eq (fun j => m.replaceCells row first j value) replaceCells_self
    (by rw [Nat.add_sub_cancel' hfirst])
  intro j hj hlt
  rw [h j hj (by omega)]
  exact write_replaceCells hrow hj (by omega)

/-! ## Row operations -/

def subtractRow (m : DenseMatrix α) (target source : ℕ) (factor : α) (col : ℕ) :
    Guarded (DenseMatrix α) :=
  (List.range' col (m.cols - col)).foldlM (fun m j => do
    let subtrahend ← read m source j
    let minuend ← read m target j
    write m target j (minuend - factor * subtrahend)) m

theorem subtractRow_eq {target source : ℕ} (factor : α) (ht : target < m.rows)
    (hs : source < m.rows) (hcol : col ≤ m.cols) :
    subtractRow m target source factor col =
      .ok (m.replaceCells target col m.cols fun j =>
        m.entry target j - factor * m.entry source j) := by
  apply writeRow_eq ht hcol
  intro j hj hlt
  have hs' : source < (m.replaceCells target col j fun j =>
    m.entry target j - factor * m.entry source j).rows := hs
  have ht' : target < (m.replaceCells target col j fun j =>
    m.entry target j - factor * m.entry source j).rows := ht
  rw [read_eq hs' hlt, read_eq ht' hlt, entry_replaceCells hs hlt, entry_replaceCells ht hlt,
    if_neg (by omega), if_neg (by omega)]
  rfl

def normalizeRow (m : DenseMatrix α) (k : ℕ) (pivot : α) : Guarded (DenseMatrix α) := do
  let cells ← outOfRange (m.row k)
  let _ ← slice cells k cells.length
  let divided ← (List.range' k (m.cols - k)).foldlM (fun m j => do
    let cell ← read m k j
    write m k j (cell / pivot)) m
  write divided k k 1

theorem row_eq (hi : i < m.rows) :
    outOfRange (m.row i) = .ok ((List.range m.cols).map (m.entry i)) := by
  rw [outOfRange, DenseMatrix.row, checkRow, if_pos hi]
  rfl

theorem replaceCells_eq_normalizeRow (m : DenseMatrix α) (k : ℕ) (pivot : α) :
    (m.replaceCells k k m.cols fun j => m.entry k j / pivot).replaceCells k k (k + 1) (fun _ => 1) =
      m.normalizeRow k pivot := by
  refine ext_entry rfl rfl ?_
  intro i (hi : i < m.rows) j (hj : j < m.cols)
  have hi' : i < (m.replaceCells k k m.cols fun j => m.entry k j / pivot).rows := hi
  have hj' : j < (m.replaceCells k k m.cols fun j => m.entry k j / pivot).cols := hj
  rw [entry_replaceCells hi' hj', entry_replaceCells hi hj, entry_normalizeRow m k pivot hi hj]
  by_cases hik : i = k
  · subst hik
    rcases lt_trichotomy j i with hlt | rfl | hgt
    · rw [if_neg (by omega), if_neg (by omega), if_pos (by omega)]
    · rw [if_pos (by omega), if_neg (by omega), if_pos rfl]
    · rw [if_neg (by omega), if_pos (by omega), if_neg (by omega), if_neg (by omega)]
  · rw [if_neg (by omega), if_neg (by omega), if_pos (Or.inl hik)]

theorem normalizeRow_eq (pivot : α) (hk : k < m.rows) (hkc : k < m.cols) :
    normalizeRow m k pivot = .ok (m.normalizeRow k pivot) := by
  have hdivided : (List.range' k (m.cols - k)).foldlM (fun m j => do
      let cell ← read m k j
      write m k j (cell / pivot)) m =
        .ok (m.replaceCells k k m.cols fun j => m.entry k j / pivot) := by
    apply writeRow_eq hk hkc.le
    intro j hj hlt
    have hk' : k < (m.replaceCells k k j fun j => m.entry k j / pivot).rows := hk
    rw [read_eq hk' hlt, entry_replaceCells hk hlt, if_neg (by omega)]
    rfl
  have hslice : slice ((List.range m.cols).map (m.entry k)) k
      ((List.range m.cols).map (m.entry k)).length =
        .ok (((List.range m.cols).map (m.entry k)).drop k |>.take
          (((List.range m.cols).map (m.entry k)).length - k)) :=
    slice_eq (by simpa using hkc.le) le_rfl
  rw [normalizeRow, row_eq hk, ok_bind, hslice, ok_bind, hdivided, ok_bind, write,
    require_of ⟨hk, hkc⟩]
  exact congrArg Except.ok (replaceCells_eq_normalizeRow m k pivot)

/-- Two rows exchanged. The data are split in front of the lower row, and a slice of the first part
changes places with the head of the second. -/
def exchangeRows (m : DenseMatrix α) (first second : ℕ) : Guarded (DenseMatrix α) := do
  let exchanged ← outOfRange (m.swapRows first second)
  if first = second then return m
  else
    let upper := min first second
    let split := max first second * m.cols
    require (split ≤ m.data.size) (.slice 0 split m.data.size)
    require ((upper + 1) * m.cols ≤ split) (.slice (upper * m.cols) ((upper + 1) * m.cols) split)
    require (m.cols ≤ m.data.size - split) (.slice 0 m.cols (m.data.size - split))
    return exchanged

theorem exchangeRows_eq (hfirst : first < m.rows) (hsecond : second < m.rows) :
    exchangeRows m first second = .ok (m.exchangeRows first second) := by
  have hswap : outOfRange (m.swapRows first second) = .ok (m.exchangeRows first second) := by
    rw [outOfRange, swapRows, if_pos ⟨hfirst, hsecond⟩]
    rfl
  rw [exchangeRows, hswap, ok_bind]
  by_cases heq : first = second
  · subst heq
    rw [exchangeRows_self]
    exact if_pos rfl
  · have hlower : max first second + 1 ≤ m.rows := by omega
    have hdata : (max first second + 1) * m.cols ≤ m.data.size := by
      rw [m.size_eq]
      exact Nat.mul_le_mul_right _ hlower
    have hupper : (min first second + 1) * m.cols ≤ max first second * m.cols :=
      Nat.mul_le_mul_right _ (by omega)
    rw [Nat.succ_mul] at hdata
    rw [if_neg heq]
    dsimp only
    rw [require_of (by omega), require_of hupper, require_of (by omega)]
    rfl

/-- Rows are only exchanged when they are different. -/
def bringUp (m : DenseMatrix α) (first second : ℕ) : Guarded (DenseMatrix α) :=
  if first = second then return m else exchangeRows m first second

theorem bringUp_eq (hfirst : first < m.rows) (hsecond : second < m.rows) :
    bringUp m first second = .ok (m.exchangeRows first second) := by
  unfold bringUp
  split_ifs with h
  · rw [h, exchangeRows_self]
    rfl
  · exact exchangeRows_eq hfirst hsecond

/-! ## Searches -/

/-- The search for the largest magnitude keeps the best value along with its row. -/
def pivotRow (m : DenseMatrix α) (col first : ℕ) : Guarded ℕ := do
  require (first < m.rows ∧ col < m.cols)
    (.outOfRange (.pivotSearch first col m.rows m.cols))
  let start ← read m first col
  let (best, _) ← (List.range' (first + 1) (m.rows - (first + 1))).foldlM (fun (best, largest) i => do
    let value ← read m i col
    return if Scalar.lt largest (Scalar.abs value) then (i, Scalar.abs value) else (best, largest))
    (first, Scalar.abs start)
  return best

/-- The value that is kept is always the magnitude in the best row so far. -/
theorem pivotSearch_eq {ε : Type} (readRow : ℕ → Except ε α) {xs : List ℕ} (best : ℕ)
    (h : ∀ i ∈ xs, readRow i = .ok (m.entry i col)) :
    ∃ largest, xs.foldlM (fun (best, largest) i => do
      let value ← readRow i
      return if Scalar.lt largest (Scalar.abs value) then (i, Scalar.abs value)
        else (best, largest)) (best, Scalar.abs (m.entry best col)) =
    (.ok (xs.foldl (fun best i =>
      if Scalar.lt (Scalar.abs (m.entry best col)) (Scalar.abs (m.entry i col)) then i
      else best) best, largest) : Except ε (ℕ × α)) := by
  induction xs generalizing best with
  | nil => exact ⟨_, rfl⟩
  | cons i xs ih =>
    obtain ⟨hi, hxs⟩ := List.forall_mem_cons.mp h
    rw [List.foldlM_cons, List.foldl_cons, hi]
    cases hlt : Scalar.lt (Scalar.abs (m.entry best col)) (Scalar.abs (m.entry i col)) with
    | true => simpa [ok_bind, hlt] using ih i hxs
    | false => simpa [ok_bind, hlt] using ih best hxs

omit [Scalar α] in
/-- The rows that a loop from row `first` on passes through. -/
theorem lt_rows_of_mem_range' (h : i ∈ List.range' first (m.rows - first)) : i < m.rows := by
  rw [List.mem_range'_1] at h
  omega

theorem pivotRow_eq (hfirst : first < m.rows) (hcol : col < m.cols) :
    pivotRow m col first = .ok (m.pivotRow col first) := by
  obtain ⟨largest, hlargest⟩ :=
    pivotSearch_eq (fun i => read m i col) first
      fun i hi => read_eq (lt_rows_of_mem_range' hi) hcol
  rw [pivotRow, require_of ⟨hfirst, hcol⟩, ok_bind, read_eq hfirst hcol, ok_bind, hlargest]
  rfl

def nonzeroRow? (m : DenseMatrix α) (col first : ℕ) : Guarded (Option ℕ) :=
  (List.range' first (m.rows - first)).findM? fun i => return !isNearZero (← read m i col)

theorem nonzeroSearch_eq (hcol : col < m.cols) {xs : List ℕ} (h : ∀ i ∈ xs, i < m.rows) :
    xs.findM? (fun i => return !isNearZero (← read m i col)) =
      (.ok (xs.find? fun i => !isNearZero (m.entry i col)) : Guarded (Option ℕ)) := by
  induction xs with
  | nil => rfl
  | cons i xs ih =>
    obtain ⟨hi, hxs⟩ := List.forall_mem_cons.mp h
    rw [List.findM?, read_eq hi hcol, List.find?]
    cases hzero : isNearZero (m.entry i col) with
    | true => simpa [ok_bind, hzero] using ih hxs
    | false =>
      simp only [ok_bind, hzero]
      rfl

theorem nonzeroRow?_eq (hcol : col < m.cols) :
    nonzeroRow? m col first = .ok (m.nonzeroRow? col first) :=
  nonzeroSearch_eq hcol fun _ => lt_rows_of_mem_range'

/-! ## Copies -/

def column (m : DenseMatrix α) (j : ℕ) : Guarded (Except Error (List α)) :=
  if j < m.cols then do
    let cells ← (List.range m.rows).mapM fun i => read m i j
    return .ok cells
  else return .error (.indexOutOfBounds 0 j m.rows m.cols)

theorem column_eq (m : DenseMatrix α) (j : ℕ) : column m j = .ok (m.column j) := by
  unfold column DenseMatrix.column
  split_ifs with hj
  · rw [mapM_eq_ok fun i hi => read_eq (List.mem_range.mp hi) hj]
    rfl
  · rfl

def block (m : DenseMatrix α) (row col rows cols : ℕ) : Guarded (Except Error (DenseMatrix α)) :=
  if row + rows ≤ m.rows ∧ col + cols ≤ m.cols then do
    let pieces ← (List.range rows).mapM fun i =>
      slice m.data.toList ((row + i) * m.cols + col) ((row + i) * m.cols + col + cols)
    return ofArray pieces.flatten.toArray rows cols
  else return .error (.indexOutOfBounds (row + rows) (col + cols) m.rows m.cols)

theorem slice_data {cols : ℕ} (hi : i < m.rows) (hcols : col + cols ≤ m.cols) :
    slice m.data.toList (i * m.cols + col) (i * m.cols + col + cols) =
      .ok ((List.range cols).map fun j => m.entry i (col + j)) := by
  have hend : i * m.cols + col + cols ≤ m.data.size := by
    have hrow : (i + 1) * m.cols ≤ m.rows * m.cols := Nat.mul_le_mul_right _ hi
    rw [Nat.succ_mul] at hrow
    rw [m.size_eq]
    omega
  rw [slice_eq (Nat.le_add_right _ _) (by simpa using hend)]
  refine congrArg Except.ok (List.ext_getElem ?_ fun j hj hj' => ?_)
  · simp
    omega
  · have hlt : j < cols := by simpa using hj'
    have hin : i * m.cols + (col + j) < m.data.size := by omega
    rw [List.getElem_take, List.getElem_drop, List.getElem_map, List.getElem_range, entry,
      if_pos (by omega)]
    simp [Array.getD, hin, Nat.add_assoc]

theorem block_eq (m : DenseMatrix α) (row col rows cols : ℕ) :
    block m row col rows cols = .ok (m.block row col rows cols) := by
  unfold block DenseMatrix.block
  split_ifs with h
  · have hpieces : ∀ i ∈ List.range rows,
        slice m.data.toList ((row + i) * m.cols + col) ((row + i) * m.cols + col + cols) =
          .ok ((List.range cols).map fun j => m.entry (row + i) (col + j)) := by
      intro i hi
      rw [List.mem_range] at hi
      exact slice_data (by omega) h.2
    rw [mapM_eq_ok hpieces, ok_bind, ← data_ofFn rows cols fun i j => m.entry (row + i) (col + j)]
    exact congrArg Except.ok (dif_pos (size_eq _))
  · rfl

end Guarded

end DenseSystem
