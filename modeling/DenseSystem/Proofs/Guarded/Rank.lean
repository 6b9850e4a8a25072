import Mathlib.Tactic
import DenseSystem.Classification
import DenseSystem.Determinant
import DenseSystem.Proofs.Guarded.Matrix
import DenseSystem.Proofs.Rank.Echelon

/-! # Guarded ranks and determinants

Both reduce a copy of a matrix row by row. A rank looks for pivots in every column of a matrix of any
shape, a determinant in the columns of a square matrix, and neither reaches beyond it.
-/
namespace DenseSystem.Guarded

open DenseMatrix

variable {α : Type} [Scalar α] {m work : DenseMatrix α} {r k col found : ℕ}

/-! ## Subtraction below a pivot -/

def subtractBelow (m : DenseMatrix α) (r col : ℕ) (pivot : α) : Guarded (DenseMatrix α) :=
  (List.range' (r + 1) (m.rows - (r + 1))).foldlM (fun work i => do
    let head ← read work i col
    if Scalar.isZero (head / pivot) then return work
    else subtractRow work i r (head / pivot) col) m

def subtractedBefore (m : DenseMatrix α) (r col i : ℕ) : DenseMatrix α :=
  ofFn m.rows m.cols fun row j =>
    if row < i then (m.subtractBelow r col).entry row j else m.entry row j

theorem entry_subtractedBefore {i row j : ℕ} (hrow : row < m.rows) (hj : j < m.cols) :
    (subtractedBefore m r col i).entry row j =
      if row < i then (m.subtractBelow r col).entry row j else m.entry row j :=
  entry_ofFn _ hrow hj

theorem entry_subtractBelow_above {i j : ℕ} (hi : i < m.rows) (hj : j < m.cols) (hir : i ≤ r) :
    (m.subtractBelow r col).entry i j = m.entry i j := by
  rw [entry_subtractBelow m r col hi hj]
  exact if_pos (Or.inl hir)

theorem subtractedBefore_first (m : DenseMatrix α) (r col : ℕ) :
    subtractedBefore m r col (r + 1) = m := by
  refine ext_entry rfl rfl ?_
  intro i (hi : i < m.rows) j (hj : j < m.cols)
  rw [entry_subtractedBefore hi hj]
  split_ifs with hlt
  · exact entry_subtractBelow_above hi hj (by omega)
  · rfl

theorem subtractedBefore_rows (m : DenseMatrix α) (r col : ℕ) :
    subtractedBefore m r col m.rows = m.subtractBelow r col := by
  refine ext_entry rfl rfl ?_
  intro i (hi : i < m.rows) j (hj : j < m.cols)
  rw [entry_subtractedBefore hi hj, if_pos hi]

theorem subtractedBefore_succ_of_isZero {i : ℕ}
    (hzero : Scalar.isZero (m.entry i col / m.entry r col) = true) :
    subtractedBefore m r col (i + 1) = subtractedBefore m r col i := by
  refine ext_entry rfl rfl ?_
  intro row (hrow : row < m.rows) j (hj : j < m.cols)
  rw [entry_subtractedBefore hrow hj, entry_subtractedBefore hrow hj]
  rcases lt_trichotomy row i with hlt | rfl | hgt
  · rw [if_pos (by omega), if_pos hlt]
  · rw [if_pos (by omega), if_neg (by omega), entry_subtractBelow m r col hrow hj]
    exact if_pos (Or.inr (Or.inr hzero))
  · rw [if_neg (by omega), if_neg (by omega)]

theorem subtractedBefore_succ {i : ℕ} (hr : r < m.rows) (hri : r < i)
    (hzero : Scalar.isZero (m.entry i col / m.entry r col) = false) :
    subtractedBefore m r col (i + 1) =
      (subtractedBefore m r col i).replaceCells i col m.cols fun j =>
        (subtractedBefore m r col i).entry i j -
          m.entry i col / m.entry r col * (subtractedBefore m r col i).entry r j := by
  refine ext_entry rfl rfl ?_
  intro row (hrow : row < m.rows) j (hj : j < m.cols)
  rw [entry_replaceCells (by exact hrow) (by exact hj), entry_subtractedBefore hrow hj,
    entry_subtractedBefore hrow hj]
  rcases lt_trichotomy row i with hlt | rfl | hgt
  · rw [if_pos (by omega), if_neg (by omega), if_pos hlt]
  · rw [if_pos (by omega), entry_subtractedBefore hrow hj, entry_subtractedBefore hr hj,
      if_neg (lt_irrefl row), if_pos hri, entry_subtractBelow_above hr hj le_rfl,
      entry_subtractBelow m r col hrow hj]
    dsimp only
    by_cases hleft : j < col
    · rw [if_pos (Or.inr (Or.inl hleft)), if_neg (by omega)]
    · rw [if_neg (by simp [hzero]; omega), if_pos (by omega)]
  · rw [if_neg (by omega), if_neg (by omega), if_neg (by omega)]

theorem subtractBelow_eq (hr : r < m.rows) (hcol : col < m.cols) :
    subtractBelow m r col (m.entry r col) = .ok (m.subtractBelow r col) := by
  apply loop_eq (subtractedBefore m r col) (subtractedBefore_first m r col)
    (by rw [Nat.add_sub_cancel' hr, subtractedBefore_rows])
  intro i hri hlt
  have hi : i < m.rows := by omega
  have hread : read (subtractedBefore m r col i) i col = .ok (m.entry i col) := by
    rw [read_eq (by exact hi) (by exact hcol), entry_subtractedBefore hi hcol,
      if_neg (lt_irrefl i)]
  rw [hread, ok_bind]
  cases hzero : Scalar.isZero (m.entry i col / m.entry r col) with
  | true =>
    rw [if_pos rfl, subtractedBefore_succ_of_isZero hzero]
    rfl
  | false =>
    rw [if_neg Bool.false_ne_true, subtractedBefore_succ hr hri hzero]
    exact subtractRow_eq _ hi hr hcol.le

/-! ## Ranks -/

def echelonStep (work : DenseMatrix α) (found col : ℕ) : Guarded (DenseMatrix α × ℕ) := do
  match ← nonzeroRow? work col found with
  | none => return (work, found)
  | some p =>
    let up ← exchangeRows work p found
    let pivot ← read up found col
    let subtracted ← subtractBelow up found col pivot
    return (subtracted, found + 1)

theorem echelonStep_eq (found : ℕ) (hcol : col < work.cols) :
    echelonStep work found col = .ok (work.echelonStep found col) := by
  rw [echelonStep, nonzeroRow?_eq hcol, ok_bind, DenseMatrix.echelonStep]
  cases hp : work.nonzeroRow? col found with
  | none => rfl
  | some p =>
    obtain ⟨hle, hlt, -⟩ := nonzeroRow?_spec hp
    have hfound : found < work.rows := by omega
    dsimp only
    rw [exchangeRows_eq hlt hfound, ok_bind, read_eq (by exact hfound) (by exact hcol), ok_bind,
      subtractBelow_eq (by exact hfound) (by exact hcol)]
    rfl

def rankFrom (work : DenseMatrix α) (found col : ℕ) : ℕ → Guarded ℕ
  | 0 => return found
  | left + 1 =>
    if found = work.rows then return found
    else do
      let (work, found) ← echelonStep work found col
      rankFrom work found (col + 1) left

theorem cols_echelonStep (work : DenseMatrix α) (found col : ℕ) :
    (work.echelonStep found col).1.cols = work.cols := by
  rw [DenseMatrix.echelonStep]
  split <;> rfl

theorem rankFrom_eq {left : ℕ} (hcols : col + left ≤ work.cols) :
    rankFrom work found col left = .ok (work.rankFrom found col left) := by
  induction left generalizing work found col with
  | zero => rfl
  | succ left ih =>
    rw [rankFrom, DenseMatrix.rankFrom]
    split_ifs
    · rfl
    · have hshape := cols_echelonStep work found col
      rw [echelonStep_eq found (by omega), ok_bind]
      generalize work.echelonStep found col = next at hshape ⊢
      obtain ⟨next, found'⟩ := next
      dsimp only at hshape
      exact ih (by omega)

def rank (m : DenseMatrix α) : Guarded ℕ := rankFrom m 0 0 m.cols

theorem rank_eq (m : DenseMatrix α) : rank m = .ok m.rank := rankFrom_eq (Nat.zero_add _).le

/-! ## Determinants -/

def determinantFrom (work : DenseMatrix α) (det : α) (k : ℕ) : ℕ → Guarded α
  | 0 => return det
  | left + 1 => do
    let p ← pivotRow work k k
    let pivot ← read work p k
    if isNearZero pivot then return 0
    else
      let up ← bringUp work p k
      let subtracted ← subtractBelow up k k pivot
      determinantFrom subtracted ((if p = k then det else -det) * pivot) (k + 1) left

theorem determinantFrom_eq {left : ℕ} (det : α) (hrows : k + left ≤ work.rows)
    (hcols : k + left ≤ work.cols) :
    determinantFrom work det k left = .ok (work.determinantFrom det k left) := by
  induction left generalizing work det k with
  | zero => rfl
  | succ left ih =>
    have hk : k < work.rows := by omega
    have hkc : k < work.cols := by omega
    have hp := work.pivotRow_lt k hk
    rw [determinantFrom, pivotRow_eq hk hkc, ok_bind, read_eq hp hkc, ok_bind,
      DenseMatrix.determinantFrom, determinantStep]
    cases hzero : isNearZero (work.entry (work.pivotRow k k) k) with
    | true => rfl
    | false =>
      -- The pivot is read before the exchange, and the rows are subtracted after it.
      have hpivot : work.entry (work.pivotRow k k) k =
          (work.exchangeRows (work.pivotRow k k) k).entry k k := by
        rw [entry_exchangeRows _ _ _ hk hkc]
        by_cases hpk : k = work.pivotRow k k
        · rw [if_pos hpk, ← hpk]
        · rw [if_neg hpk, if_pos rfl]
      rw [if_neg Bool.false_ne_true, if_neg Bool.false_ne_true, bringUp_eq hp hk, ok_bind]
      nth_rewrite 1 [hpivot]
      rw [subtractBelow_eq (by exact hk) (by exact hkc), ok_bind]
      by_cases hpk : work.pivotRow k k = k
      · rw [if_pos hpk, if_pos hpk, hpk, exchangeRows_self]
        exact ih _ (by rw [rows_subtractBelow]; omega) (by rw [cols_subtractBelow]; omega)
      · rw [if_neg hpk, if_neg hpk]
        exact ih _ (by rw [rows_subtractBelow, rows_exchangeRows]; omega)
          (by rw [cols_subtractBelow, cols_exchangeRows]; omega)

def determinant (m : DenseMatrix α) : Guarded (Except Error α) :=
  match m.checkSquare with
  | .error e => return .error e
  | .ok () => do return .ok (← determinantFrom m 1 0 m.rows)

theorem determinant_eq (m : DenseMatrix α) : determinant m = .ok m.determinant := by
  unfold determinant DenseMatrix.determinant checkSquare
  split_ifs with hsquare
  · have hcols : m.rows = m.cols := beq_iff_eq.mp hsquare
    dsimp only
    rw [determinantFrom_eq 1 (Nat.zero_add _).le (by omega)]
    rfl
  · rfl

end DenseSystem.Guarded
