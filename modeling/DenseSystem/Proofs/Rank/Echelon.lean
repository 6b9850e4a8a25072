import Mathlib.Tactic
import DenseSystem.Proofs.PivotSearch
import DenseSystem.Rank

/-! # The reduction that counts a rank

The rank is the number of rows with a pivot once all columns have been searched. The statements here
name the working matrix after each column and hold in any arithmetic.
-/
namespace DenseSystem.DenseMatrix

variable {α : Type} [Scalar α]

/-- The working matrix once the first columns are searched, and the number of its rows that have a
pivot by then. -/
def echelon (m : DenseMatrix α) : ℕ → DenseMatrix α × ℕ
  | 0 => (m, 0)
  | k + 1 => (m.echelon k).1.echelonStep (m.echelon k).2 k

/-- The matrix after a column with a pivot in row `p`, the next row to get one being `found`. -/
def subtracted (work : DenseMatrix α) (found col p : ℕ) : DenseMatrix α :=
  (work.exchangeRows p found).subtractBelow found col

@[simp] theorem rows_subtracted (work : DenseMatrix α) (found col p : ℕ) :
    (work.subtracted found col p).rows = work.rows := rfl

@[simp] theorem cols_subtracted (work : DenseMatrix α) (found col p : ℕ) :
    (work.subtracted found col p).cols = work.cols := rfl

theorem echelonStep_of_none {work : DenseMatrix α} {found col : ℕ}
    (h : work.nonzeroRow? col found = none) : work.echelonStep found col = (work, found) := by
  simp only [echelonStep, h]

theorem echelonStep_of_some {work : DenseMatrix α} {found col p : ℕ}
    (h : work.nonzeroRow? col found = some p) :
    work.echelonStep found col = (work.subtracted found col p, found + 1) := by
  simp only [echelonStep, h, subtracted]

theorem echelonStep_rows (work : DenseMatrix α) (col : ℕ) :
    work.echelonStep work.rows col = (work, work.rows) :=
  echelonStep_of_none ((work.nonzeroRow?_eq_none_iff col work.rows).mpr
    fun _ hi hlt => absurd hlt (not_lt.mpr hi))

/-- What each searched column preserves holds after any number of them. -/
theorem echelon_invariant {P : ℕ → DenseMatrix α → ℕ → Prop} {m : DenseMatrix α} {n : ℕ}
    (hstart : P 0 m 0)
    (hnone : ∀ k < n, P k (m.echelon k).1 (m.echelon k).2 →
      (m.echelon k).1.nonzeroRow? k (m.echelon k).2 = none →
      P (k + 1) (m.echelon k).1 (m.echelon k).2)
    (hsome : ∀ k < n, ∀ p, P k (m.echelon k).1 (m.echelon k).2 →
      (m.echelon k).1.nonzeroRow? k (m.echelon k).2 = some p →
      P (k + 1) ((m.echelon k).1.subtracted (m.echelon k).2 k p) ((m.echelon k).2 + 1)) :
    ∀ k ≤ n, P k (m.echelon k).1 (m.echelon k).2 := by
  intro k hk
  induction k with
  | zero => exact hstart
  | succ k ih =>
    have hprev := ih (by omega)
    rw [echelon]
    cases hp : (m.echelon k).1.nonzeroRow? k (m.echelon k).2 with
    | none =>
      rw [echelonStep_of_none hp]
      exact hnone k hk hprev hp
    | some p =>
      rw [echelonStep_of_some hp]
      exact hsome k hk p hprev hp

theorem shape_echelon (m : DenseMatrix α) (k : ℕ) :
    (m.echelon k).1.rows = m.rows ∧ (m.echelon k).1.cols = m.cols ∧
      (m.echelon k).2 ≤ m.rows ∧ (m.echelon k).2 ≤ k := by
  refine echelon_invariant
    (P := fun k work found =>
      work.rows = m.rows ∧ work.cols = m.cols ∧ found ≤ m.rows ∧ found ≤ k)
    ⟨rfl, rfl, Nat.zero_le _, le_rfl⟩ (fun k _ h _ => ?_) (fun k _ p h hp => ?_) k le_rfl
  · exact ⟨h.1, h.2.1, h.2.2.1, by omega⟩
  · have hspec := nonzeroRow?_spec hp
    exact ⟨h.1, h.2.1, by omega, by omega⟩

theorem rankFrom_echelon (m : DenseMatrix α) (k left : ℕ) :
    rankFrom (m.echelon k).1 (m.echelon k).2 k left = (m.echelon (k + left)).2 := by
  induction left generalizing k with
  | zero => rfl
  | succ left ih =>
    have hnext := ih (k + 1)
    rw [show k + 1 + left = k + (left + 1) by omega] at hnext
    rw [rankFrom]
    split_ifs with hfull
    · -- every row has a pivot, so the columns that are left change nothing
      have hstep : m.echelon (k + 1) = m.echelon k := by
        rw [echelon, hfull, echelonStep_rows, ← hfull]
      rw [← hnext, hstep]
      cases left with
      | zero => rfl
      | succ left => rw [rankFrom, if_pos hfull]
    · exact hnext

/-- The rank is the number of pivots that are found in all columns. -/
theorem rank_eq_echelon (m : DenseMatrix α) : m.rank = (m.echelon m.cols).2 := by
  have h := m.rankFrom_echelon 0 m.cols
  rw [Nat.zero_add] at h
  exact h

theorem echelon_succ_le (m : DenseMatrix α) (k : ℕ) :
    (m.echelon (k + 1)).2 ≤ (m.echelon k).2 + 1 := by
  rw [echelon]
  cases h : (m.echelon k).1.nonzeroRow? k (m.echelon k).2 with
  | none =>
    rw [echelonStep_of_none h]
    exact Nat.le_succ _
  | some p => rw [echelonStep_of_some h]

theorem exists_pivot_of_rank_eq {m : DenseMatrix α} (h : m.rank = m.cols) {k : ℕ}
    (hk : k < m.cols) : ∃ p, (m.echelon k).1.nonzeroRow? k (m.echelon k).2 = some p := by
  cases hp : (m.echelon k).1.nonzeroRow? k (m.echelon k).2 with
  | some p => exact ⟨p, rfl⟩
  | none =>
    have hlater : ∀ left, (m.echelon (k + 1 + left)).2 ≤ k + left := by
      intro left
      induction left with
      | zero =>
        rw [Nat.add_zero, echelon, echelonStep_of_none hp]
        exact (m.shape_echelon k).2.2.2
      | succ left ih => exact (m.echelon_succ_le (k + 1 + left)).trans (Nat.succ_le_succ ih)
    have hlast := hlater (m.cols - (k + 1))
    rw [show k + 1 + (m.cols - (k + 1)) = m.cols by omega, ← rank_eq_echelon, h] at hlast
    omega

def searched (work : DenseMatrix α) (col first : ℕ) : List α :=
  match work.nonzeroRow? col first with
  | none => (List.range' first (work.rows - first)).map (work.entry · col)
  | some p => (List.range' first (p + 1 - first)).map (work.entry · col)

/-- All values that are compared with the tolerance while a rank is counted. -/
def rankTests (m : DenseMatrix α) : List α :=
  (List.range m.cols).flatMap fun k => (m.echelon k).1.searched k (m.echelon k).2

theorem mem_rankTests_of_none {m : DenseMatrix α} {k i : ℕ} (hk : k < m.cols)
    (h : (m.echelon k).1.nonzeroRow? k (m.echelon k).2 = none) (hi : (m.echelon k).2 ≤ i)
    (hrows : i < (m.echelon k).1.rows) : (m.echelon k).1.entry i k ∈ m.rankTests := by
  refine List.mem_flatMap.mpr ⟨k, List.mem_range.mpr hk, ?_⟩
  simp only [searched, h]
  exact List.mem_map_of_mem (f := fun i => (m.echelon k).1.entry i k)
    (List.mem_range'_1.mpr ⟨hi, by omega⟩)

/-! ## The entries after a column with a pivot -/

/-- The row that stands in row `i` once row `p` is brought up to row `found`. -/
def broughtUp (found p i : ℕ) : ℕ := if i = p then found else if i = found then p else i

variable {work : DenseMatrix α} {found col p i j : ℕ}

theorem broughtUp_lt {n : ℕ} (hp : p < n) (hfound : found ≤ p) (hi : i < n) :
    broughtUp found p i < n := by
  unfold broughtUp
  split_ifs <;> omega

theorem le_broughtUp (hfound : found ≤ p) (hi : found ≤ i) : found ≤ broughtUp found p i := by
  unfold broughtUp
  split_ifs <;> omega

theorem broughtUp_of_lt (hfound : found ≤ p) (hi : i < found) : broughtUp found p i = i := by
  unfold broughtUp
  split_ifs <;> omega

theorem broughtUp_found : broughtUp found p found = p := by
  unfold broughtUp
  split_ifs <;> omega

theorem entry_exchanged (hi : i < work.rows) (hj : j < work.cols) :
    (work.exchangeRows p found).entry i j = work.entry (broughtUp found p i) j :=
  entry_exchangeRows work p found hi hj

/-- Rows that have a pivot and columns that were searched are only rearranged. -/
theorem entry_subtracted_of_done (hi : i < work.rows) (hj : j < work.cols)
    (hdone : i ≤ found ∨ j < col) :
    (work.subtracted found col p).entry i j = work.entry (broughtUp found p i) j := by
  have hi' : i < (work.exchangeRows p found).rows := hi
  have hj' : j < (work.exchangeRows p found).cols := hj
  have hkept : i ≤ found ∨ j < col ∨ Scalar.isZero ((work.exchangeRows p found).entry i col /
      (work.exchangeRows p found).entry found col) = true :=
    hdone.imp id Or.inl
  rw [subtracted, entry_subtractBelow _ _ _ hi' hj']
  exact (if_pos hkept).trans (entry_exchanged hi hj)

def factor (work : DenseMatrix α) (found col p i : ℕ) : α :=
  work.entry (broughtUp found p i) col / work.entry p col

theorem entry_subtracted (hp : p < work.rows) (hfound : found ≤ p) (hi : i < work.rows)
    (hj : j < work.cols) (hcol : col < work.cols) (hbelow : found < i) (hright : col ≤ j) :
    (work.subtracted found col p).entry i j =
      if Scalar.isZero (work.factor found col p i) then work.entry (broughtUp found p i) j
      else work.entry (broughtUp found p i) j - work.factor found col p i * work.entry p j := by
  have hi' : i < (work.exchangeRows p found).rows := hi
  have hj' : j < (work.exchangeRows p found).cols := hj
  have hf : found < work.rows := by omega
  rw [subtracted, entry_subtractBelow _ _ _ hi' hj']
  simp only [entry_exchanged hi hj, entry_exchanged hi hcol, entry_exchanged hf hj,
    entry_exchanged hf hcol, broughtUp_found, factor]
  exact if_congr ((or_iff_right (by omega)).trans (or_iff_right (by omega))) rfl rfl

/-- Columns that are still to be searched, and the one that is, are treated alike. -/
theorem entry_subtracted_congr {j' : ℕ} (hp : p < work.rows) (hfound : found ≤ p)
    (hcol : col < work.cols) (hj : col ≤ j) (hj' : col ≤ j') (hcols : j < work.cols)
    (hcols' : j' < work.cols) (h : ∀ i < work.rows, work.entry i j = work.entry i j')
    (hi : i < work.rows) :
    (work.subtracted found col p).entry i j = (work.subtracted found col p).entry i j' := by
  have hsource := h _ (broughtUp_lt hp hfound hi)
  rcases Nat.lt_or_ge found i with hbelow | habove
  · rw [entry_subtracted hp hfound hi hcols hcol hbelow hj,
      entry_subtracted hp hfound hi hcols' hcol hbelow hj', hsource, h p hp]
  · rw [entry_subtracted_of_done hi hcols (Or.inl habove),
      entry_subtracted_of_done hi hcols' (Or.inl habove), hsource]

end DenseSystem.DenseMatrix
