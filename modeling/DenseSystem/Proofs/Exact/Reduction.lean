import Mathlib
import DenseSystem.Proofs.Elimination.Shape
import DenseSystem.Proofs.Exact.RowTransform

/-! # Eliminations as matrix products

Over the rationals a complete elimination multiplies its start from the left by an invertible
matrix, so both have the same solutions. If a column offers no pivot at all, the start is singular.
-/
namespace DenseSystem.DenseMatrix

open Matrix

variable [Tolerance]

/-- `after` is `before` multiplied from the left by an invertible `n x n` matrix. -/
def RowEquivalent (n : ℕ) (before after : DenseMatrix ℚ) : Prop :=
  ∃ d, d ≠ 0 ∧ Transforms n d before after

namespace RowEquivalent

variable {n : ℕ} {a b c : DenseMatrix ℚ}

theorem refl (n : ℕ) (a : DenseMatrix ℚ) : RowEquivalent n a a :=
  ⟨1, one_ne_zero, Transforms.refl n a⟩

theorem trans (hab : RowEquivalent n a b) (hbc : RowEquivalent n b c) : RowEquivalent n a c := by
  obtain ⟨d, hd, hab⟩ := hab
  obtain ⟨e, he, hbc⟩ := hbc
  exact ⟨e * d, mul_ne_zero he hd, hab.trans hbc⟩

theorem exists_mul (h : RowEquivalent n a b) :
    ∃ P : Matrix (Fin n) (Fin n) ℚ, P.det ≠ 0 ∧
      (∀ k ≤ a.cols, b.toMatrix n k = P * a.toMatrix n k) ∧
      ∀ j < a.cols, b.columnVector n j = P *ᵥ a.columnVector n j := by
  obtain ⟨d, hd, h⟩ := h
  obtain ⟨P, hP, hmul, hcol⟩ := h.exists_mul
  exact ⟨P, hP ▸ hd, hmul, hcol⟩

theorem det_eq_zero_iff (h : RowEquivalent n a b) (hn : n ≤ a.cols) :
    (b.toMatrix n n).det = 0 ↔ (a.toMatrix n n).det = 0 := by
  obtain ⟨d, hd, h⟩ := h
  rw [h.det_eq hn, mul_eq_zero, or_iff_right hd]

theorem rank_eq (h : RowEquivalent n a b) {k : ℕ} (hk : k ≤ a.cols) :
    (b.toMatrix n k).rank = (a.toMatrix n k).rank := by
  obtain ⟨d, hd, h⟩ := h
  exact h.rank_eq hd hk

theorem solves_iff (h : RowEquivalent n a b) (hn : n < a.cols) (x : Fin n → ℚ) :
    b.toMatrix n n *ᵥ x = b.columnVector n n ↔ a.toMatrix n n *ᵥ x = a.columnVector n n := by
  obtain ⟨P, hP, hmul, hcol⟩ := h.exists_mul
  have hinj := mulVec_injective_of_isUnit ((isUnit_iff_isUnit_det P).mpr hP.isUnit)
  rw [hmul n hn.le, hcol n hn, ← mulVec_mulVec]
  exact hinj.eq_iff

end RowEquivalent

variable {work result : DenseMatrix ℚ} {k : ℕ} {sweep : Sweep}

theorem ReducedUpTo.entry_eq_zero (h : ReducedUpTo sweep k work) {i j : ℕ} (hj : j < k)
    (hi : i < work.rows) (hreach : sweep.reaches j i = true) : work.entry i j = 0 :=
  Exact.isZero_iff.mp ((h j hj).2 i hi hreach)

/-- Reducing one more column is a product of an exchange, a scaling and a shear. -/
theorem rowEquivalent_reduced (hshape : work.rows ≤ work.cols) (h : ReducedUpTo sweep k work)
    (hk : k < work.rows) (hp : isNearZero (work.pivot k) = false) :
    RowEquivalent work.rows work (work.reduced k sweep) := by
  have hkc : k < work.cols := by omega
  have hne := Exact.ne_zero_of_not_isNearZero hp
  have hprow := work.pivotRow_lt k hk
  have hzero : ∀ j < k, work.entry (work.pivotRow k k) j = 0 := fun j hj =>
    h.entry_eq_zero hj hprow (reaches_of_lt sweep (hj.trans_le (work.le_pivotRow k k)))
  have hexchange := transforms_exchangeRows hk hprow
  have hdiag : (work.exchangeRows k (work.pivotRow k k)).entry k k = work.pivot k := by
    rw [entry_exchangeRows _ _ _ hk hkc, if_pos rfl, pivot]
  have hleft : ∀ j < k, (work.exchangeRows k (work.pivotRow k k)).entry k j = 0 := by
    intro j hj
    rw [entry_exchangeRows _ _ _ hk (by omega), if_pos rfl]
    exact hzero j hj
  have hnormal : Transforms work.rows (work.pivot k)⁻¹ _ (work.normalized k) :=
    transforms_normalizeRow hk hne hdiag hleft
  have hleft' : ∀ j < k, (work.normalized k).entry k j = 0 := by
    intro j hj
    rw [entry_normalized_left hk (by omega) hj, sourceRow_self]
    exact hzero j hj
  have hclear : Transforms work.rows 1 (work.normalized k) (work.reduced k sweep) :=
    transforms_clearColumn (m := work.normalized k) hk (entry_normalized_self hk hkc) hleft'
  have hnonzero : (1 : ℚ) * ((work.pivot k)⁻¹ * if work.pivotRow k k = k then 1 else -1) ≠ 0 := by
    rw [one_mul]
    apply mul_ne_zero (inv_ne_zero hne)
    split_ifs <;> norm_num
  exact ⟨_, hnonzero, (hexchange.trans hnormal).trans hclear⟩

/-- What holds of the working matrix before column `k`. -/
structure Reducing (sweep : Sweep) (start : DenseMatrix ℚ) (k : ℕ) (work : DenseMatrix ℚ) :
    Prop where
  rows_eq : work.rows = start.rows
  cols_eq : work.cols = start.cols
  shape : ReducedUpTo sweep k work
  equivalent : RowEquivalent start.rows start work

theorem Reducing.start (sweep : Sweep) (m : DenseMatrix ℚ) : Reducing sweep m 0 m :=
  ⟨rfl, rfl, fun j hj => absurd hj (Nat.not_lt_zero j), RowEquivalent.refl m.rows m⟩

theorem Reducing.next {start : DenseMatrix ℚ} (hshape : start.rows ≤ start.cols) (k : ℕ)
    (work : DenseMatrix ℚ) (h : Reducing sweep start k work) (hk : k < work.rows)
    (hp : isNearZero (work.pivot k) = false) :
    Reducing sweep start (k + 1) (work.reduced k sweep) := by
  have hwide : work.rows ≤ work.cols := by rw [h.rows_eq, h.cols_eq]; exact hshape
  have hequiv := rowEquivalent_reduced hwide h.shape hk hp
  rw [h.rows_eq] at hequiv
  exact ⟨h.rows_eq, h.cols_eq, h.shape.next (Exact.isZero_iff.mpr rfl) hwide hk,
    h.equivalent.trans hequiv⟩

theorem reducing_of_reduce {start : DenseMatrix ℚ} (hshape : start.rows ≤ start.cols)
    (h : (start.reduce sweep).outcome = .ok result) :
    Reducing sweep start start.rows result := by
  have hend := reduceFrom_invariant (Reducing.next hshape) (Nat.zero_add start.rows).le h
    (Reducing.start sweep start)
  rwa [Nat.zero_add] at hend

/-! ## A column without a pivot -/

omit [Tolerance] in
/-- A square matrix whose column `k` and all before it vanish from row `k` on is singular. -/
theorem det_eq_zero_of_zeros {n : ℕ} (M : Matrix (Fin n) (Fin n) ℚ) (k : Fin n)
    (h : ∀ i j : Fin n, k ≤ i → j ≤ k → M i j = 0) : M.det = 0 := by
  rw [twoBlockTriangular_det M (· < k) fun i hi j hj => h i j (not_lt.mp hi) hj.le]
  have hcolumn : (toSquareBlockProp M fun i => ¬ i < k).det = 0 :=
    det_eq_zero_of_column_eq_zero ⟨k, lt_irrefl k⟩ fun i => h i k (not_lt.mp i.property) le_rfl
  rw [hcolumn, mul_zero]

/-- A largest magnitude of zero means that the column vanishes from its diagonal on. -/
theorem entry_eq_zero_of_pivot (hpivot : work.pivot k = 0) {i : ℕ} (hki : k ≤ i)
    (hi : i < work.rows) : work.entry i k = 0 := by
  have hle := work.abs_entry_le_pivotRow k hki hi
  rw [pivot] at hpivot
  rw [hpivot, abs_zero] at hle
  exact abs_nonpos_iff.mp hle

/-- An elimination that meets a pivot of zero started from a singular matrix. -/
theorem det_eq_zero_of_reduce {start : DenseMatrix ℚ} {e : Error}
    (hshape : start.rows ≤ start.cols) (h : (start.reduce sweep).outcome = .error e)
    (hclear : ∀ k p v, .pivotSelected k p v ∈ (start.reduce sweep).steps → Exact.Clear v) :
    (start.toMatrix start.rows start.rows).det = 0 := by
  obtain ⟨k, stuck, -, hk, -, hstuck, -, hnear, hmem⟩ :=
    reduceFrom_failure (Reducing.next hshape) (Nat.zero_add start.rows).le h
      (Reducing.start sweep start)
  rw [Nat.zero_add] at hk
  have hpivot := (hclear _ _ _ hmem).eq_zero hnear
  rw [← hstuck.equivalent.det_eq_zero_iff hshape]
  refine det_eq_zero_of_zeros _ ⟨k, hk⟩ fun i j hi hj => ?_
  have hirows : (i : ℕ) < stuck.rows := by
    rw [hstuck.rows_eq]
    exact i.isLt
  rcases hj.eq_or_lt with rfl | hlt
  · exact entry_eq_zero_of_pivot hpivot hi hirows
  · exact hstuck.shape.entry_eq_zero hlt hirows
      (reaches_of_lt sweep (Fin.lt_def.mp (hlt.trans_le hi)))

end DenseSystem.DenseMatrix
