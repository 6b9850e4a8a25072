import Mathlib
import DenseSystem.Proofs.Exact.Rank

/-! # Ranks are not overestimated

A column whose entries are all below the tolerance is skipped, although it may not vanish, and later
steps leave it alone. So the working matrix need not be equivalent to the start any more. In the
columns of the pivots, and in those still to be searched, it is, and the columns of the pivots are
independent.
-/
namespace DenseSystem

variable [Tolerance]

namespace DenseMatrix

open Matrix

variable {start work : DenseMatrix ℚ} {k found p : ℕ}

/-- One invertible matrix acts on all columns from `k` on, and on those before it that vanish in the
row of the pivot. -/
theorem exists_mulVec_subtracted {n : ℕ} (hn : work.rows = n) (hfound : found ≤ p) (hp : p < n) :
    ∃ P : Matrix (Fin n) (Fin n) ℚ, P.det ≠ 0 ∧ ∀ j < work.cols,
      (k ≤ j ∨ work.entry p j = 0) →
        (work.subtracted found k p).columnVector n j = P *ᵥ work.columnVector n j := by
  subst hn
  have hf : found < work.rows := by omega
  obtain ⟨E, hE, -, hexchange⟩ := (transforms_exchangeRows hp hf).exists_mul
  refine ⟨shear ⟨found, hf⟩ ((work.exchangeRows p found).factorsBelow work.rows found k) * E, ?_,
    fun j hj hdone => ?_⟩
  · rw [det_mul, det_shear_factorsBelow, hE]
    split_ifs <;> norm_num
  · have hdone' : k ≤ j ∨ (work.exchangeRows p found).entry found j = 0 := by
      rwa [entry_exchanged hf hj, broughtUp_found]
    have hrows := work.rows_exchangeRows p found
    rw [subtracted, columnVector_subtractBelow hrows hf hj hdone', hexchange j hj, mulVec_mulVec]

/-- What holds once `k` columns are searched, whatever was skipped among them. -/
structure Staircase (start : DenseMatrix ℚ) (k : ℕ) (work : DenseMatrix ℚ) (found : ℕ) : Prop where
  rows_eq : work.rows = start.rows
  cols_eq : work.cols = start.cols
  found_le : found ≤ start.rows
  /-- The columns of the pivots and those from `k` on come from the start. -/
  leads : ∃ lead, PivotColumns start.rows k work found lead ∧
    ∃ P : Matrix (Fin start.rows) (Fin start.rows) ℚ, P.det ≠ 0 ∧ ∀ j < start.cols,
      (k ≤ j ∨ ∃ r < found, lead r = j) →
        work.columnVector start.rows j = P *ᵥ start.columnVector start.rows j

theorem Staircase.none_found (m : DenseMatrix ℚ) : Staircase m 0 m 0 where
  rows_eq := rfl
  cols_eq := rfl
  found_le := Nat.zero_le _
  leads := ⟨id, fun _ hr => absurd hr (Nat.not_lt_zero _), 1, by simp, fun j _ _ => by simp⟩

theorem Staircase.skip (h : Staircase start k work found) : Staircase start (k + 1) work found := by
  obtain ⟨lead, hlead, P, hP, hcolumns⟩ := h.leads
  refine ⟨h.rows_eq, h.cols_eq, h.found_le, lead, fun r hr => ?_, P, hP, fun j hj hkept => ?_⟩
  · obtain ⟨hlt, hrest⟩ := hlead r hr
    exact ⟨by omega, hrest⟩
  · exact hcolumns j hj (hkept.imp (by omega) id)

theorem Staircase.pivot (h : Staircase start k work found) (hk : k < start.cols)
    (hfound : found ≤ p) (hp : p < start.rows) (hne : work.entry p k ≠ 0) :
    Staircase start (k + 1) (work.subtracted found k p) (found + 1) := by
  obtain ⟨lead, hlead, P, hP, hcolumns⟩ := h.leads
  obtain ⟨Q, hQ, hstep⟩ := exists_mulVec_subtracted (k := k) h.rows_eq hfound hp
  refine ⟨h.rows_eq, h.cols_eq, by omega, _,
    hlead.subtracted h.rows_eq (h.cols_eq ▸ hk) hfound hp hne, Q * P, ?_, fun j hj hkept => ?_⟩
  · rw [det_mul]
    exact mul_ne_zero hQ hP
  · have hbefore : (k ≤ j ∨ work.entry p j = 0) ∧ (k ≤ j ∨ ∃ r < found, lead r = j) := by
      rcases hkept with hkj | ⟨r, hr, rfl⟩
      · exact ⟨.inl (by omega), .inl (by omega)⟩
      · rcases Nat.lt_succ_iff_lt_or_eq.mp hr with hrf | rfl
        · rw [Function.update_of_ne hrf.ne]
          exact ⟨.inr ((hlead r hrf).2.2 p hp (hrf.trans_le hfound)), .inr ⟨r, hrf, rfl⟩⟩
        · rw [Function.update_self]
          exact ⟨.inl le_rfl, .inl le_rfl⟩
    rw [hstep j (h.cols_eq ▸ hj) hbefore.1, hcolumns j hj hbefore.2, mulVec_mulVec]

/-- The columns of the pivots are independent, and were so at the start. -/
theorem Staircase.le_rank (h : Staircase start k work found) (hk : k ≤ start.cols) :
    found ≤ (start.toMatrix start.rows start.cols).rank := by
  obtain ⟨lead, hlead, P, -, hcolumns⟩ := h.leads
  have hlt (r : Fin found) : lead r < start.cols := (hlead r r.isLt).1.trans_le hk
  let col : Fin found → Fin start.cols := fun r => ⟨lead r, hlt r⟩
  have hproduct : (work.toMatrix start.rows start.cols).submatrix id col =
      P * (start.toMatrix start.rows start.cols).submatrix id col := by
    ext i r
    exact congrFun (hcolumns (lead r) (hlt r) (.inr ⟨r, r.isLt, rfl⟩)) i
  calc found ≤ ((work.toMatrix start.rows start.cols).submatrix id col).rank :=
        le_rank_of_triangle h.found_le (fun r => (hlead r r.isLt).2.1)
          fun r i hri => (hlead r r.isLt).2.2 i i.isLt hri
    _ ≤ ((start.toMatrix start.rows start.cols).submatrix id col).rank := by
        rw [hproduct]
        exact rank_mul_le_right _ _
    _ ≤ (start.toMatrix start.rows start.cols).rank := rank_submatrix_le _ id col

theorem rank_le_rank (m : DenseMatrix ℚ) : m.rank ≤ (m.toMatrix m.rows m.cols).rank := by
  have hinv : ∀ k ≤ m.cols, Staircase m k (m.echelon k).1 (m.echelon k).2 :=
    echelon_invariant (Staircase.none_found m) (fun _ _ h _ => h.skip) fun k hk p h hp => by
      obtain ⟨hfound, hlt, hnear⟩ := nonzeroRow?_spec hp
      exact h.pivot hk hfound (h.rows_eq ▸ hlt) (Exact.ne_zero_of_not_isNearZero hnear)
  rw [rank_eq_echelon]
  exact (hinv m.cols le_rfl).le_rank le_rfl

end DenseMatrix

/-- As many pivots are counted as the rank says, or fewer. They can be fewer only if a nonzero entry
was taken for zero. -/
theorem rank_bounded_and_exact (m : DenseMatrix ℚ) :
    m.rank ≤ (m.toMatrix m.rows m.cols).rank ∧
      ((∀ v ∈ m.rankTests, v = 0 ∨ Scalar.tolerance ≤ |v|) →
        m.rank = (m.toMatrix m.rows m.cols).rank) :=
  ⟨m.rank_le_rank, m.rank_eq⟩

omit [Tolerance] in
/-- The first column is skipped, and the second row is a fraction of the first. -/
theorem rank_of_proportional_rows :
    let _ : Tolerance := .decimal
    let m : DenseMatrix ℚ := ⟨3, 4, #[0, 3, 6, 1, 0, 1, 2, 1 / 3, 0, 3, 6, 5], rfl⟩
    (∀ v ∈ m.rankTests, v = 0 ∨ Scalar.tolerance ≤ |v|) ∧ (m.toMatrix 3 4).rank = 2 := by
  intro _ m
  have hclear : ∀ v ∈ m.rankTests, v = 0 ∨ Scalar.tolerance ≤ |v| := by decide +kernel
  have hcount : m.rank = 2 := by decide +kernel
  exact ⟨hclear, ((rank_bounded_and_exact m).2 hclear).symm.trans hcount⟩

end DenseSystem
