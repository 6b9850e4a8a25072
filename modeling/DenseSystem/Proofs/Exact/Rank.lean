import Mathlib
import DenseSystem.Proofs.Exact.Reduction
import DenseSystem.Proofs.Rank.Echelon

/-! # The rank over the rationals

If the tolerance takes no nonzero entry for zero, the number of pivots that are found is the rank:
the rows without a pivot vanish, and the columns of the pivots form a triangle.
-/
namespace DenseSystem.DenseMatrix

open Matrix

variable [Tolerance] {start work : DenseMatrix ℚ} {k found p : ℕ}

/-- Bringing up a row and subtracting it below is a product of an exchange and a shear. -/
theorem transforms_subtracted (hk : k < work.cols) (hfound : found ≤ p) (hp : p < work.rows)
    (hleft : ∀ j < k, work.entry p j = 0) :
    Transforms work.rows (if p = found then 1 else -1) work (work.subtracted found k p) := by
  have hf : found < work.rows := by omega
  have hexchange := transforms_exchangeRows hp hf
  have hleft' : ∀ j < k, (work.exchangeRows p found).entry found j = 0 := by
    intro j hj
    rw [entry_exchanged hf (by omega), broughtUp_found]
    exact hleft j hj
  have hsubtract : Transforms work.rows 1 _ (work.subtracted found k p) :=
    transforms_subtractBelow hf hleft'
  have hboth := hexchange.trans hsubtract
  rwa [one_mul, if_congr eq_comm rfl rfl] at hboth

theorem entry_subtracted_column (hk : k < work.cols) (hfound : found ≤ p) (hp : p < work.rows)
    (hne : work.entry p k ≠ 0) {i : ℕ} (hi : i < work.rows) (hbelow : found < i) :
    (work.subtracted found k p).entry i k = 0 := by
  rw [entry_subtracted hp hfound hi hk hk hbelow le_rfl, factor]
  split_ifs with hz
  · exact (div_eq_zero_iff.mp (Exact.isZero_iff.mp hz)).resolve_right hne
  · exact sub_eq_zero_of_eq (div_mul_cancel₀ _ hne).symm

/-- Each row with a pivot has a column, its lead, in which it is not zero and all rows below it
are. -/
def PivotColumns (n k : ℕ) (work : DenseMatrix ℚ) (found : ℕ) (lead : ℕ → ℕ) : Prop :=
  ∀ r < found, lead r < k ∧ work.entry r (lead r) ≠ 0 ∧
    ∀ i < n, r < i → work.entry i (lead r) = 0

/-- A new pivot leads in its column and leaves the other leads as they are. -/
theorem PivotColumns.subtracted {n : ℕ} {lead : ℕ → ℕ} (h : PivotColumns n k work found lead)
    (hn : work.rows = n) (hk : k < work.cols) (hfound : found ≤ p) (hp : p < n)
    (hne : work.entry p k ≠ 0) :
    PivotColumns n (k + 1) (work.subtracted found k p) (found + 1)
      (Function.update lead found k) := by
  subst hn
  intro r hr
  rcases Nat.lt_succ_iff_lt_or_eq.mp hr with hrf | rfl
  · obtain ⟨hlt, hnelead, hbelow⟩ := h r hrf
    have hcol : lead r < work.cols := hlt.trans hk
    rw [Function.update_of_ne hrf.ne]
    refine ⟨by omega, ?_, fun i hi hri => ?_⟩
    · rw [entry_subtracted_of_done (by omega) hcol (Or.inr hlt), broughtUp_of_lt hfound hrf]
      exact hnelead
    · rw [entry_subtracted_of_done hi hcol (Or.inr hlt)]
      apply hbelow _ (broughtUp_lt hp hfound hi)
      rcases lt_or_ge i found with hif | hif
      · rwa [broughtUp_of_lt hfound hif]
      · exact hrf.trans_le (le_broughtUp hfound hif)
  · rw [Function.update_self]
    refine ⟨Nat.lt_succ_self k, ?_, fun i hi hb => entry_subtracted_column hk hfound hp hne hi hb⟩
    rw [entry_subtracted_of_done (by omega) hk (Or.inl le_rfl), broughtUp_found]
    exact hne

/-- What holds once `k` columns are searched and `found` rows have a pivot. -/
structure Echelon (start : DenseMatrix ℚ) (k : ℕ) (work : DenseMatrix ℚ) (found : ℕ) : Prop where
  rows_eq : work.rows = start.rows
  cols_eq : work.cols = start.cols
  equivalent : RowEquivalent start.rows start work
  found_le : found ≤ start.rows
  below : ∀ j < k, ∀ i < start.rows, found ≤ i → work.entry i j = 0
  /-- Each row with a pivot has a column in which it is not zero and all rows below it are. -/
  leads : ∃ lead : ℕ → ℕ, ∀ r < found, lead r < k ∧ work.entry r (lead r) ≠ 0 ∧
    ∀ i < start.rows, r < i → work.entry i (lead r) = 0

theorem Echelon.none_found (m : DenseMatrix ℚ) : Echelon m 0 m 0 where
  rows_eq := rfl
  cols_eq := rfl
  equivalent := RowEquivalent.refl m.rows m
  found_le := Nat.zero_le _
  below j hj := absurd hj (Nat.not_lt_zero j)
  leads := ⟨id, fun r hr => absurd hr (Nat.not_lt_zero r)⟩

/-- A column without a pivot vanishes in the rows that were searched. -/
theorem Echelon.skip (h : Echelon start k work found)
    (hzero : ∀ i < start.rows, found ≤ i → work.entry i k = 0) :
    Echelon start (k + 1) work found := by
  obtain ⟨lead, hlead⟩ := h.leads
  refine ⟨h.rows_eq, h.cols_eq, h.equivalent, h.found_le, fun j hj i hi hf => ?_, lead,
    fun r hr => ?_⟩
  · rcases Nat.lt_succ_iff_lt_or_eq.mp hj with hjk | rfl
    · exact h.below j hjk i hi hf
    · exact hzero i hi hf
  · obtain ⟨hlt, hne, hbelow⟩ := hlead r hr
    exact ⟨by omega, hne, hbelow⟩

theorem Echelon.pivot (h : Echelon start k work found) (hk : k < start.cols) (hfound : found ≤ p)
    (hp : p < start.rows) (hne : work.entry p k ≠ 0) :
    Echelon start (k + 1) (work.subtracted found k p) (found + 1) := by
  obtain ⟨lead, hlead⟩ := h.leads
  have hk' : k < work.cols := h.cols_eq ▸ hk
  have hp' : p < work.rows := h.rows_eq ▸ hp
  refine ⟨h.rows_eq, h.cols_eq, ?_, by omega, fun j hj i hi hf => ?_, _,
    PivotColumns.subtracted hlead h.rows_eq hk' hfound hp hne⟩
  · have hstep := transforms_subtracted hk' hfound hp' fun j hj => h.below j hj p hp hfound
    rw [h.rows_eq] at hstep
    refine h.equivalent.trans ⟨_, ?_, hstep⟩
    split_ifs <;> norm_num
  · have hi' : i < work.rows := h.rows_eq ▸ hi
    rcases Nat.lt_succ_iff_lt_or_eq.mp hj with hjk | rfl
    · rw [entry_subtracted_of_done hi' (by omega) (Or.inr hjk)]
      exact h.below j hjk _ (broughtUp_lt hp hfound hi) (le_broughtUp hfound (by omega))
    · exact entry_subtracted_column hk' hfound hp' hne hi' hf

omit [Tolerance] in
/-- Columns that form a triangle in the first rows are independent. -/
theorem le_rank_of_triangle {n f : ℕ} {M : Matrix (Fin n) (Fin f) ℚ} (hf : f ≤ n)
    (hdiag : ∀ r : Fin f, M (r.castLE hf) r ≠ 0)
    (hbelow : ∀ (r : Fin f) (i : Fin n), (r : ℕ) < i → M i r = 0) : f ≤ M.rank := by
  let triangle := M.submatrix (Fin.castLE hf) id
  have hdet : triangle.det ≠ 0 := by
    have hupper : triangle.det = ∏ r, triangle r r :=
      det_of_isUpperTriangular fun i j hij => hbelow j (i.castLE hf) hij
    rw [hupper]
    exact Finset.prod_ne_zero_iff.mpr fun r _ => hdiag r
  calc f = triangle.rank := by rw [rank_of_det_ne_zero hdet, Fintype.card_fin]
    _ ≤ M.rank := rank_submatrix_le _ _ _

/-- The number of rows with a pivot is the rank of the columns that were searched. -/
theorem Echelon.rank_eq (h : Echelon start k work found) (hk : k ≤ start.cols) :
    (start.toMatrix start.rows k).rank = found := by
  rw [← h.equivalent.rank_eq hk]
  apply le_antisymm
  · let pivoted : Finset (Fin start.rows) := Finset.univ.filter fun i => (i : ℕ) < found
    have hsupport : Function.support (work.toMatrix start.rows k).row ⊆ pivoted := by
      intro i hi
      by_contra hnot
      have hfi : found ≤ i := by simpa [pivoted] using hnot
      exact hi (funext fun j => h.below j j.isLt i i.isLt hfi)
    have hcard : pivoted.card = found := by
      rw [Fin.card_filter_val_lt, min_eq_right h.found_le]
    exact (rank_le_card_of_support_subset _ pivoted hsupport).trans hcard.le
  · obtain ⟨lead, hlead⟩ := h.leads
    let col : Fin found → Fin k := fun r => ⟨lead r, (hlead r r.isLt).1⟩
    calc found ≤ ((work.toMatrix start.rows k).submatrix id col).rank :=
          le_rank_of_triangle h.found_le (fun r => (hlead r r.isLt).2.1)
            fun r i hri => (hlead r r.isLt).2.2 i i.isLt hri
      _ ≤ (work.toMatrix start.rows k).rank := rank_submatrix_le _ id col

/-- As many pivots are found as the rank says, if no nonzero entry is taken for zero. -/
theorem rank_eq (m : DenseMatrix ℚ) (hclear : ∀ v ∈ m.rankTests, Exact.Clear v) :
    m.rank = (m.toMatrix m.rows m.cols).rank := by
  have hinv : ∀ k ≤ m.cols, Echelon m k (m.echelon k).1 (m.echelon k).2 := by
    refine echelon_invariant (Echelon.none_found m) (fun k hk h hp => ?_) fun k hk p h hp => ?_
    · apply h.skip
      intro i hi hf
      have hrows : i < (m.echelon k).1.rows := h.rows_eq ▸ hi
      exact (hclear _ (mem_rankTests_of_none hk hp hf hrows)).eq_zero
        ((nonzeroRow?_eq_none_iff _ _ _).mp hp i hf hrows)
    · obtain ⟨hfound, hlt, hnear⟩ := nonzeroRow?_spec hp
      exact h.pivot hk hfound (h.rows_eq ▸ hlt) (Exact.ne_zero_of_not_isNearZero hnear)
  rw [rank_eq_echelon, (hinv m.cols le_rfl).rank_eq le_rfl]

end DenseSystem.DenseMatrix
