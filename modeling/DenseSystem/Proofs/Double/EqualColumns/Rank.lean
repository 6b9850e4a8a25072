import Mathlib.Tactic
import DenseSystem.Proofs.Double.Backward
import DenseSystem.Proofs.Double.Cancelling
import DenseSystem.Proofs.Rank.Echelon

/-! # Equal columns in a rank

The reduction that counts a rank writes no zero below a pivot, it subtracts. Of two equal columns the
second can only get a pivot of its own if subtracting left something of the first.
-/
namespace DenseSystem.DenseMatrix

variable {α : Type} [Scalar α] {m : DenseMatrix α} {c d : ℕ}

theorem echelon_columns_eq (hcd : c < d) (hd : d < m.cols)
    (hequal : ∀ i < m.rows, m.entry i c = m.entry i d) :
    ∀ k ≤ c + 1, ∀ i < m.rows, (m.echelon k).1.entry i c = (m.echelon k).1.entry i d := by
  refine echelon_invariant (P := fun _ work _ => ∀ i < m.rows, work.entry i c = work.entry i d)
    hequal (fun k _ h _ => h) fun k hk p h hp => ?_
  obtain ⟨hrows, hcols, -, -⟩ := m.shape_echelon k
  obtain ⟨hfound, hlt, -⟩ := nonzeroRow?_spec hp
  rw [← hrows] at h ⊢
  intro i hi
  exact entry_subtracted_congr hlt hfound (by omega) (by omega) (by omega) (by omega) (by omega)
    h hi

variable [Cancelling α]

/-- As long as nothing overflows, a column of zeros in the rows without a pivot stays one. -/
theorem isZero_echelon_succ {k : ℕ} (hkd : k ≤ d) (hd : d < m.cols)
    (hfinite : (m.echelon (k + 1)).1.EntriesFinite)
    (hzero : ∀ i, (m.echelon k).2 ≤ i → i < m.rows →
      Scalar.isZero ((m.echelon k).1.entry i d) = true) :
    ∀ i, (m.echelon (k + 1)).2 ≤ i → i < m.rows →
      Scalar.isZero ((m.echelon (k + 1)).1.entry i d) = true := by
  obtain ⟨hrows, hcols, -, -⟩ := m.shape_echelon k
  rw [echelon] at hfinite ⊢
  cases hp : (m.echelon k).1.nonzeroRow? k (m.echelon k).2 with
  | none =>
    rw [echelonStep_of_none hp]
    exact hzero
  | some p =>
    obtain ⟨hfound, hlt, -⟩ := nonzeroRow?_spec hp
    rw [echelonStep_of_some hp] at hfinite ⊢
    intro i hi hrow
    have hrow' : i < (m.echelon k).1.rows := by omega
    have hd' : d < (m.echelon k).1.cols := by omega
    have hi' : (m.echelon k).2 < i := hi
    have hentry := hfinite i hrow' d hd'
    have hsource := hzero _ (le_broughtUp hfound hi'.le) (hrows ▸ broughtUp_lt hlt hfound hrow')
    have hpivot := hzero p hfound (hrows ▸ hlt)
    have hvalue := entry_subtracted hlt hfound hrow' hd' (by omega) hi' hkd
    rw [hvalue] at hentry ⊢
    split_ifs at hentry ⊢ with hfactor
    · exact hsource
    · have hproduct := (Spoiling.of_mul (Spoiling.of_sub hentry).2).1
      exact Cancelling.isZero_sub hsource (Cancelling.isZero_mul hproduct hpivot)

/-- If the second of two equal columns gets a pivot without an overflow, then subtracting the pivot
row of the first one left a nonzero entry in it, in a row without a pivot. -/
theorem exists_residue_of_pivot {p : ℕ} (hcd : c < d) (hd : d < m.cols)
    (hequal : ∀ i < m.rows, m.entry i c = m.entry i d)
    (hfinite : ∀ k ≤ d, (m.echelon k).1.EntriesFinite)
    (hp : (m.echelon d).1.nonzeroRow? d (m.echelon d).2 = some p) :
    ∃ i, (m.echelon (c + 1)).2 ≤ i ∧ i < m.rows ∧
      Scalar.isZero ((m.echelon (c + 1)).1.entry i c) = false := by
  by_contra hnone
  have hzero : ∀ k, c + 1 ≤ k → k ≤ d → ∀ i, (m.echelon k).2 ≤ i → i < m.rows →
      Scalar.isZero ((m.echelon k).1.entry i d) = true := by
    intro k hck
    induction k, hck using Nat.le_induction with
    | base =>
      intro _ i hi hrow
      rw [← echelon_columns_eq hcd hd hequal (c + 1) le_rfl i hrow]
      by_contra hz
      exact hnone ⟨i, hi, hrow, by simpa using hz⟩
    | succ k hck ih =>
      intro hkd
      exact isZero_echelon_succ (by omega) hd (hfinite (k + 1) hkd) (ih (by omega))
  obtain ⟨hfound, hlt, hnear⟩ := nonzeroRow?_spec hp
  obtain ⟨hrows, -, -, -⟩ := m.shape_echelon d
  rw [Cancelling.isNearZero_of_isZero (hzero d hcd le_rfl p hfound (hrows ▸ hlt))] at hnear
  cases hnear

end DenseSystem.DenseMatrix
