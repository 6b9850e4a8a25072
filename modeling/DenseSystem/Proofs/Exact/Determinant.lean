import Mathlib
import DenseSystem.Proofs.Determinant.Course
import DenseSystem.Proofs.Exact.Rank

/-! # The determinant over the rationals

If the tolerance takes no nonzero pivot for zero, the signed product of the pivots is the
determinant.
-/
namespace DenseSystem.DenseMatrix

open Matrix

variable [Tolerance]

/-- What holds once `k` columns are reduced and `det` is the signed product of their pivots. -/
structure Triangular (start : DenseMatrix ℚ) (k : ℕ) (work : DenseMatrix ℚ) (det : ℚ) : Prop where
  rows_eq : work.rows = start.rows
  cols_eq : work.cols = start.cols
  below : ∀ j < k, ∀ i < start.rows, j < i → work.entry i j = 0
  /-- The sign is that of the exchanges. -/
  signed : ∃ s : ℚ, s * s = 1 ∧ Transforms start.rows s start work ∧
    det = s * ∏ j ∈ Finset.range k, work.entry j j

variable {start work : DenseMatrix ℚ} {k : ℕ} {det : ℚ}

theorem Triangular.next (h : Triangular start k work det) (hk : k < start.rows)
    (hkc : k < start.cols) (hne : work.pivot k ≠ 0) :
    Triangular start (k + 1) (work.subtracted k k (work.pivotRow k k))
      ((if work.pivotRow k k = k then det else -det) * work.pivot k) := by
  obtain ⟨s, hs, htransforms, hdet⟩ := h.signed
  have hk' : k < work.rows := h.rows_eq ▸ hk
  have hkc' : k < work.cols := h.cols_eq ▸ hkc
  have hle := work.le_pivotRow k k
  have hlt := work.pivotRow_lt k hk'
  have hdone : ∀ i < start.rows, ∀ j < start.cols, i ≤ k ∨ j < k →
      (work.subtracted k k (work.pivotRow k k)).entry i j =
        work.entry (broughtUp k (work.pivotRow k k) i) j :=
    fun i hi j hj hd => entry_subtracted_of_done (h.rows_eq ▸ hi) (h.cols_eq ▸ hj) hd
  refine ⟨h.rows_eq, h.cols_eq, fun j hj i hi hji => ?_,
    (if work.pivotRow k k = k then 1 else -1) * s, ?_, ?_, ?_⟩
  · rcases Nat.lt_succ_iff_lt_or_eq.mp hj with hjk | rfl
    · rw [hdone i hi j (by omega) (Or.inr hjk)]
      apply h.below j hjk _ (broughtUp_lt (h.rows_eq ▸ hlt) hle hi)
      rcases lt_or_ge i k with hik | hik
      · rwa [broughtUp_of_lt hle hik]
      · exact hjk.trans_le (le_broughtUp hle hik)
    · exact entry_subtracted_column hkc' hle hlt hne (h.rows_eq ▸ hi) hji
  · split_ifs <;> linarith
  · have hstep := transforms_subtracted hkc' hle hlt fun j hj =>
      h.below j hj _ (h.rows_eq ▸ hlt) (hj.trans_le hle)
    rw [h.rows_eq] at hstep
    exact htransforms.trans hstep
  · have hprod : ∏ j ∈ Finset.range k, (work.subtracted k k (work.pivotRow k k)).entry j j =
        ∏ j ∈ Finset.range k, work.entry j j := by
      apply Finset.prod_congr rfl
      intro j hj
      have hjk := Finset.mem_range.mp hj
      rw [hdone j (by omega) j (by omega) (Or.inr hjk), broughtUp_of_lt hle hjk]
    rw [Finset.prod_range_succ, hprod, hdone k hk k hkc (Or.inl le_rfl), broughtUp_found, hdet,
      pivot]
    split_ifs <;> ring

/-- The signed product of the pivots is the determinant, if no nonzero pivot is taken for zero. -/
theorem Triangular.determinantFrom_eq {left : ℕ} (h : Triangular start k work det)
    (hshape : start.rows ≤ start.cols) (hleft : k + left = start.rows)
    (hclear : ∀ v ∈ work.determinantTests det k left, Exact.Clear v) :
    work.determinantFrom det k left = (start.toMatrix start.rows start.rows).det := by
  induction left generalizing k work det with
  | zero =>
    obtain ⟨s, hs, htransforms, hdet⟩ := h.signed
    have hprod : (work.toMatrix start.rows start.rows).det =
        ∏ j ∈ Finset.range k, work.entry j j := by
      have hupper : (work.toMatrix start.rows start.rows).IsUpperTriangular :=
        fun i j hij => h.below j (by omega) i i.isLt hij
      rw [det_of_isUpperTriangular hupper, show k = start.rows by omega, Finset.prod_range]
      rfl
    rw [determinantFrom, hdet, ← hprod, htransforms.det_eq hshape, ← mul_assoc, hs, one_mul]
  | succ left ih =>
    have hk : k < start.rows := by omega
    rw [determinantTests, List.forall_mem_cons] at hclear
    obtain ⟨hpivot, hrest⟩ := hclear
    rw [determinantFrom]
    rw [determinantStep_eq] at hrest ⊢
    by_cases hnear : isNearZero (work.pivot k) = true
    · rw [if_pos hnear]
      obtain ⟨s, hs, htransforms, -⟩ := h.signed
      have hzero : (work.toMatrix start.rows start.rows).det = 0 := by
        refine det_eq_zero_of_zeros _ ⟨k, hk⟩ fun i j hi hj => ?_
        have hi' : (i : ℕ) < work.rows := by rw [h.rows_eq]; exact i.isLt
        rcases hj.eq_or_lt with rfl | hlt
        · exact entry_eq_zero_of_pivot (hpivot.eq_zero hnear) hi hi'
        · exact h.below j hlt i i.isLt (Fin.lt_def.mp (hlt.trans_le hi))
      rw [htransforms.det_eq hshape] at hzero
      exact ((mul_eq_zero.mp hzero).resolve_left (left_ne_zero_of_mul_eq_one hs)).symm
    · have hne := Exact.ne_zero_of_not_isNearZero (by simpa using hnear)
      rw [if_neg hnear] at hrest ⊢
      exact ih (h.next hk (by omega) hne) (by omega) hrest

theorem determinantFrom_eq {m : DenseMatrix ℚ} (hshape : m.rows ≤ m.cols)
    (hclear : ∀ v ∈ m.determinantTests 1 0 m.rows, Exact.Clear v) :
    m.determinantFrom 1 0 m.rows = (m.toMatrix m.rows m.rows).det := by
  have hstart : Triangular m 0 m 1 :=
    ⟨rfl, rfl, fun j hj => absurd hj (Nat.not_lt_zero j), 1, one_mul 1, Transforms.refl _ m,
      by rw [Finset.prod_range_zero, one_mul]⟩
  exact hstart.determinantFrom_eq hshape (Nat.zero_add m.rows) hclear

end DenseSystem.DenseMatrix
