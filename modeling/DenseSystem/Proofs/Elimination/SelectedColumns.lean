import Mathlib.Tactic
import DenseSystem.Proofs.Elimination.Forward

/-! # Columns on the right

An elimination treats each column to the right of the pivots by itself. So if a matrix has the pivot
columns of another and some of its further columns, in any order, its elimination goes the same way
and ends with these columns as the other one leaves them. No law of arithmetic takes part in this.
-/
namespace DenseSystem.DenseMatrix

variable {α : Type} [Scalar α]

/-- Column `j` of `b` is column `f j` of `a`. The first `width` columns stay in place, and no other
column is taken from them. -/
structure Selects (width : ℕ) (f : ℕ → ℕ) (a b : DenseMatrix α) : Prop where
  rows_eq : b.rows = a.rows
  width_le : width ≤ b.cols
  kept : ∀ j < width, f j = j
  beyond : ∀ j, width ≤ j → width ≤ f j
  inside : ∀ j < b.cols, f j < a.cols
  entry_eq : ∀ i < a.rows, ∀ j < b.cols, b.entry i j = a.entry i (f j)

variable {a b : DenseMatrix α} {width k : ℕ} {f : ℕ → ℕ}

namespace Selects

theorem apply_lt_iff (h : Selects width f a b) (hk : k < width) {j : ℕ} : f j < k ↔ j < k := by
  rcases lt_or_ge j width with hj | hj
  · rw [h.kept j hj]
  · have := h.beyond j hj
    omega

theorem apply_eq_iff (h : Selects width f a b) (hk : k < width) {j : ℕ} : f j = k ↔ j = k := by
  rcases lt_or_ge j width with hj | hj
  · rw [h.kept j hj]
  · have := h.beyond j hj
    omega

theorem entry_kept (h : Selects width f a b) {i j : ℕ} (hi : i < a.rows) (hj : j < width) :
    b.entry i j = a.entry i j := by
  rw [h.entry_eq i hi j (hj.trans_le h.width_le), h.kept j hj]

theorem agreeFrom (h : Selects width f a b) (first : ℕ) : AgreeFrom first width a b where
  rows_eq := h.rows_eq.symm
  left_le := by
    by_contra hlt
    have hlast := h.inside a.cols (by have := h.width_le; omega)
    rw [h.kept a.cols (by omega)] at hlast
    exact lt_irrefl _ hlast
  right_le := h.width_le
  entry_eq _ _ hi _ hj := (h.entry_kept hi hj).symm

theorem exchangeRows (h : Selects width f a b) {p q : ℕ} (hp : p < a.rows) (hq : q < a.rows) :
    Selects width f (a.exchangeRows p q) (b.exchangeRows p q) where
  __ := h
  entry_eq i (hi : i < a.rows) j (hj : j < b.cols) := by
    rw [entry_exchangeRows b p q (h.rows_eq.symm ▸ hi) hj,
      entry_exchangeRows a p q hi (h.inside j hj)]
    apply h.entry_eq _ _ j hj
    split_ifs <;> assumption

theorem normalizeRow (h : Selects width f a b) (hk : k < width) (value : α) :
    Selects width f (a.normalizeRow k value) (b.normalizeRow k value) where
  __ := h
  entry_eq i (hi : i < a.rows) j (hj : j < b.cols) := by
    rw [entry_normalizeRow b k value (h.rows_eq.symm ▸ hi) hj,
      entry_normalizeRow a k value hi (h.inside j hj), h.entry_eq i hi j hj]
    simp only [h.apply_lt_iff hk, h.apply_eq_iff hk]

theorem clearColumn (h : Selects width f a b) (hk : k < a.rows) (hkw : k < width)
    (sweep : Sweep) : Selects width f (a.clearColumn k sweep) (b.clearColumn k sweep) where
  __ := h
  entry_eq i (hi : i < a.rows) j (hj : j < b.cols) := by
    have htarget : b.isTarget k sweep i = a.isTarget k sweep i := by
      rw [isTarget, isTarget, h.entry_kept hi hkw]
    rw [entry_clearColumn b k sweep (h.rows_eq.symm ▸ hi) hj,
      entry_clearColumn a k sweep hi (h.inside j hj), htarget, h.entry_kept hi hkw,
      h.entry_eq i hi j hj, h.entry_eq k hk j hj]
    simp only [h.apply_lt_iff hkw, h.apply_eq_iff hkw]

theorem reduced (h : Selects width f a b) (hk : k < a.rows) (hkw : k < width) (sweep : Sweep) :
    Selects width f (a.reduced k sweep) (b.reduced k sweep) := by
  have hrow := (h.agreeFrom k).pivotRow_eq hkw hk
  have hpivot := (h.agreeFrom k).pivot_eq hk hkw
  rw [DenseMatrix.reduced, DenseMatrix.reduced, normalized, normalized, ← hrow, ← hpivot]
  exact ((h.exchangeRows hk (a.pivotRow_lt k hk)).normalizeRow hkw _).clearColumn hk hkw sweep

theorem reduceFrom {left : ℕ} {result : DenseMatrix α} {sweep : Sweep}
    (h : Selects width f a b) (hwidth : k + left ≤ width) (hrows : k + left ≤ a.rows)
    (hresult : (a.reduceFrom sweep k left).outcome = .ok result) :
    ∃ selected, (b.reduceFrom sweep k left).outcome = .ok selected ∧
      Selects width f result selected := by
  induction left generalizing k a b with
  | zero =>
    cases hresult
    exact ⟨b, rfl, h⟩
  | succ left ih =>
    have hk : k < a.rows := by omega
    have hkw : k < width := by omega
    obtain ⟨hp, hrest⟩ := reduceFrom_succ_eq_ok hresult
    rw [(h.agreeFrom k).pivot_eq hk hkw] at hp
    rw [reduceFrom_succ, hp]
    exact ih (h.reduced hk hkw sweep) (by omega) (by rw [rows_reduced]; omega) hrest

end Selects

end DenseSystem.DenseMatrix
