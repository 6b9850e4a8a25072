import Mathlib.Tactic
import DenseSystem.Proofs.Double.Breakdown
import DenseSystem.Proofs.Double.EqualColumns.Elimination
import DenseSystem.Proofs.Double.EqualColumns.Rank

/-! # The verdict on two equal columns

Unknowns with equal coefficients can be exchanged, so no solution is the only one. The eliminations
never report one. The ranks may promise it all the same, because a quotient times its divisor need
not give the dividend back, and then the eliminations fail.
-/
namespace DenseSystem

namespace DenseMatrix

variable {α : Type} [Scalar α] {system : DenseMatrix α} {method : Method} {c d : ℕ}

/-- A finite candidate of the two eliminations comes from a finite matrix at their end. -/
theorem completed_of_candidate [Spoiling α] (hmethod : method ≠ .inverseMatrix) {x : List α}
    (h : (system.strategy method).outcome = .ok (.candidate x))
    (hx : ∀ v ∈ x, Scalar.isFinite v = true) : ∃ sweep, Completed system sweep := by
  obtain ⟨haug, -⟩ := validate_eq_ok_iff.mp (validate_of_candidate h)
  cases method with
  | gauss =>
    obtain ⟨-, -, work, hwork, rfl, -⟩ := gauss_eq_candidate h
    have hresult := entriesFinite_of_backSubstitute haug hwork hx
    obtain ⟨rfl, hpivots⟩ := eq_reducedTo_of_reduce hwork
    exact ⟨.below, haug, hpivots, hresult⟩
  | gaussJordan =>
    obtain ⟨-, -, work, hwork, rfl, -⟩ := gaussJordan_eq_candidate h
    have hresult := entriesFinite_of_rhsPart haug hwork hx
    obtain ⟨rfl, hpivots⟩ := eq_reducedTo_of_reduce hwork
    exact ⟨.all, haug, hpivots, hresult⟩
  | inverseMatrix => exact absurd rfl hmethod

/-- A promise of a unique solution means that every column of coefficients has a pivot. -/
theorem rank_of_status_eq_unique (h : system.classification.status = .unique) :
    system.coefficientPart.rank = system.coefficientPart.cols := by
  rw [classification, Classification.ofRanks] at h
  split_ifs at h with hne hfull
  exact hfull

theorem coefficientPart_columns_eq (hc : c < system.rows) (hd : d < system.rows)
    (hequal : ∀ i < system.rows, system.entry i c = system.entry i d) :
    ∀ i < system.coefficientPart.rows,
      system.coefficientPart.entry i c = system.coefficientPart.entry i d := by
  intro i hi
  rw [entry_coefficientPart system hi hc, entry_coefficientPart system hi hd]
  exact hequal i hi

end DenseMatrix

section Reports

variable {α : Type} [Scalar α] [Cancelling α] {system : DenseMatrix α} {method : Method} {c d : ℕ}

theorem status_solve_ne_unique (traced : Bool) (hmethod : method ≠ .inverseMatrix) (hcd : c < d)
    (hd : d < system.rows) (hequal : ∀ i < system.rows, system.entry i c = system.entry i d) :
    (solve system method traced).status ≠ .unique := by
  intro h
  obtain ⟨x, r, hrun⟩ := solved_of_status_eq_unique h
  obtain ⟨hx, -⟩ := isFinite_maxResidual hrun
  obtain ⟨hcandidate, -, -⟩ := DenseMatrix.attempt_eq_solved hrun
  obtain ⟨sweep, hcompleted⟩ := DenseMatrix.completed_of_candidate hmethod hcandidate hx
  exact DenseMatrix.not_completed_of_equal_columns hcd hd hequal hcompleted

end Reports

/-- For a finite system over doubles with two equal columns of coefficients, the eliminations report
what the classification says, or an error where it promises a unique solution. It does so only if
the later of the two columns has an entry above the tolerance when it is searched, and, unless
something overflowed on the way, only if the pivot row of the earlier one, subtracted from the rows
below, left a nonzero entry there. -/
theorem verdict_of_equal_columns (system : DenseMatrix Float) (haug : system.isAugmented = true)
    (hfinite : system.isFinite = true) {c d : ℕ} (hcd : c < d) (hd : d < system.rows)
    (hequal : ∀ i < system.rows, system.entry i c = system.entry i d) :
    ∃ v, classify system = .ok v ∧ v.status ≠ .error ∧
      (∀ method traced, method = .gauss ∨ method = .gaussJordan →
        (solve system method traced).status ≠ .unique ∧
          (solve system method traced).status =
            if v.status = .unique then .error else v.status) ∧
      (v.status = .unique →
        (∃ i, (system.coefficientPart.echelon d).2 ≤ i ∧ i < system.rows ∧
          isNearZero ((system.coefficientPart.echelon d).1.entry i d) = false) ∧
        ((∀ k ≤ d, (system.coefficientPart.echelon k).1.EntriesFinite) →
          ∃ i, (system.coefficientPart.echelon (c + 1)).2 ≤ i ∧ i < system.rows ∧
            Scalar.isZero ((system.coefficientPart.echelon (c + 1)).1.entry i c) = false)) := by
  have hvalid := DenseMatrix.validate_eq_ok_iff.mpr ⟨haug, hfinite⟩
  refine ⟨system.classification, DenseMatrix.classify_of_isAugmented haug,
    system.status_classification_ne_error, ?_, ?_⟩
  · intro method traced hmethod
    have hmethod' : method ≠ .inverseMatrix := by rcases hmethod with rfl | rfl <;> decide
    have hne := status_solve_ne_unique traced hmethod' hcd hd hequal
    exact ⟨hne, status_solve_of_ne_unique hmethod' hvalid hne⟩
  · intro hunique
    have hcolumns := DenseMatrix.coefficientPart_columns_eq (hcd.trans hd) hd hequal
    obtain ⟨p, hp⟩ := DenseMatrix.exists_pivot_of_rank_eq
      (DenseMatrix.rank_of_status_eq_unique hunique) hd
    obtain ⟨hrows, -, -, -⟩ := system.coefficientPart.shape_echelon d
    obtain ⟨hfound, hlt, hnear⟩ := DenseMatrix.nonzeroRow?_spec hp
    exact ⟨⟨p, hfound, hrows ▸ hlt, hnear⟩,
      fun hentries => DenseMatrix.exists_residue_of_pivot hcd hd hcolumns hentries hp⟩

theorem verdict_of_three_equations :
    let system : DenseMatrix Float := ⟨3, 4, #[2, 1, 2, 4, 4, 3, 4, 8, 0, 1, 0, 5], rfl⟩
    system.isAugmented = true ∧ system.isFinite = true ∧
      (∀ i < system.rows, system.entry i 0 = system.entry i 2) ∧
      (solve system .gauss true).status = .none ∧ (solve system .gaussJordan true).status = .none := by
  intro system
  have haug : system.isAugmented = true := rfl
  have hfinite : system.isFinite = true := by decide +kernel
  have hequal : ∀ i < system.rows, system.entry i 0 = system.entry i 2 := by decide +kernel
  obtain ⟨v, hv, -, hreports, -⟩ := verdict_of_equal_columns system haug hfinite
    (by decide : 0 < 2) (by decide : 2 < 3) hequal
  have hvalue : classify system = .ok ⟨2, 3, 3, .none⟩ := by decide +kernel
  rw [hvalue] at hv
  cases hv
  exact ⟨haug, hfinite, hequal, (hreports .gauss true (Or.inl rfl)).2,
    (hreports .gaussJordan true (Or.inr rfl)).2⟩

/-- A million divided by seven, times seven, is not a million. The difference makes two equal columns
have full rank, and the eliminations fail. -/
theorem equal_columns_promised_unique :
    let system : DenseMatrix Float := ⟨2, 3, #[7, 7, 1, 1000000, 1000000, 0], rfl⟩
    system.isAugmented = true ∧ system.isFinite = true ∧
      (∀ i < 2, system.entry i 0 = system.entry i 1) ∧
      (∀ k ≤ 2, (system.coefficientPart.echelon k).1.isFinite = true) ∧
      (∀ k ≤ 3, (system.echelon k).1.isFinite = true) ∧
      classify system = .ok ⟨2, 2, 2, .unique⟩ ∧
      (solve system .gauss false).status = .error ∧
      (solve system .gaussJordan false).status = .error := by
  decide +kernel

end DenseSystem
