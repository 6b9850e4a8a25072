import Mathlib.Tactic
import DenseSystem.Proofs.Double.EqualRows.Reduction
import DenseSystem.Proofs.Rank.LastColumn

/-! # The verdict on two equal rows

Two equations with equal coefficients are one equation too few, or contradict each other. As long as
nothing overflows, the rank and the determinant both notice, whatever is rounded. So no method
reports a solution, and the inverse method says why.
-/
namespace DenseSystem

namespace DenseMatrix

variable {α : Type} [Scalar α] {system m : DenseMatrix α} {r s : ℕ}

theorem deficient_of_rows (hrs : r ≠ s) (hr : r < m.rows) (hs : s < m.rows)
    (h : ∀ j < m.cols, SameValue (m.entry r j) (m.entry s j)) : m.Deficient 0 0 :=
  .twins (Nat.zero_le r) (Nat.zero_le s) hrs hr hs fun j _ hj => h j hj

theorem deficient_coefficientPart (hrs : r ≠ s) (hr : r < system.rows) (hs : s < system.rows)
    (h : ∀ j < system.rows, SameValue (system.entry r j) (system.entry s j)) :
    system.coefficientPart.Deficient 0 0 := by
  refine deficient_of_rows hrs hr hs fun j hj => ?_
  rw [entry_coefficientPart system hr hj, entry_coefficientPart system hs hj]
  exact h j hj

/-- With a column without pivot the classification says that there is no solution or many. -/
theorem status_classification_of_rank_lt (haug : system.isAugmented = true)
    (hrank : system.coefficientPart.rank < system.rows) :
    system.classification.status = .infinite ∨ system.classification.status = .none := by
  have hunique := mt (status_classification_eq_unique_iff haug).mp hrank.ne
  have herror := system.status_classification_ne_error
  cases hstatus : system.classification.status with
  | unique => exact absurd hstatus hunique
  | infinite => exact .inl rfl
  | none => exact .inr rfl
  | error => exact absurd hstatus herror

end DenseMatrix

section Reports

variable {α : Type} [Scalar α] {system : DenseMatrix α} {method : Method}

theorem solve_of_rank_lt (traced : Bool) (hmethod : method ≠ .inverseMatrix)
    (hvalid : system.validate = .ok ()) (hrank : system.coefficientPart.rank < system.rows) :
    ((solve system method traced).status = .infinite ∨
        (solve system method traced).status = .none) ∧
      (solve system method traced).solution = none := by
  have hstatus := DenseMatrix.status_classification_of_rank_lt
    (DenseMatrix.validate_eq_ok_iff.mp hvalid).1 hrank
  have hne : system.classification.status ≠ .unique := by
    rcases hstatus with h | h <;> simp [h]
  rw [solve_of_stopped traced (DenseMatrix.attempt_of_stopped
    (DenseMatrix.strategy_of_ne_unique hmethod hvalid hne))]
  exact ⟨hstatus, rfl⟩

end Reports

/-- Over doubles, take a finite system in which two equations have equal coefficients, and suppose
that nothing overflows in the reductions that count the rank and compute the determinant. Then the
coefficients do not have full rank, their determinant is zero, the eliminations report no solution
or infinitely many, and the inverse method reports a singular matrix. If the right-hand sides are
equal as well, the whole system does not have full rank either. -/
theorem verdict_of_equal_rows (system : DenseMatrix Float) (haug : system.isAugmented = true)
    (hfinite : system.isFinite = true) {r s : ℕ} (hrs : r ≠ s) (hr : r < system.rows)
    (hs : s < system.rows)
    (hequal : ∀ j < system.rows, (system.entry r j == system.entry s j) = true)
    (hrank : ∀ k < system.rows, (system.coefficientPart.echelon k).1.isFinite = true)
    (hdet : ∀ k < system.rows, ∀ state ∈ system.coefficientPart.determinantUpTo k,
      state.1.isFinite = true) :
    ∃ a, system.coefficients = .ok a ∧ a.rank ≤ system.rows - 1 ∧ a.determinant = .ok 0.0 ∧
      (∀ method traced, method = .gauss ∨ method = .gaussJordan →
        ((solve system method traced).status = .infinite ∨
            (solve system method traced).status = .none) ∧
          (solve system method traced).solution = none) ∧
      (∀ traced, (solve system .inverseMatrix traced).status = .error ∧
        (solve system .inverseMatrix traced).error = some "coefficient matrix is singular" ∧
        (solve system .inverseMatrix traced).determinant = some 0.0) ∧
      ((system.entry r system.rows == system.entry s system.rows) = true →
        (∀ k ≤ system.rows, (system.echelon k).1.isFinite = true) →
        system.rank ≤ system.rows - 1) := by
  have hvalid := DenseMatrix.validate_eq_ok_iff.mpr ⟨haug, hfinite⟩
  obtain ⟨-, hcols⟩ := DenseMatrix.isAugmented_iff.mp haug
  have hsame := fun j hj => (Double.beq_iff_sameValue.mp (hequal j hj)).2
  have hdeficient := DenseMatrix.deficient_coefficientPart hrs hr hs hsame
  have hless : system.coefficientPart.rank < system.rows :=
    hdeficient.rank_lt fun k hk => DenseMatrix.isFinite_iff.mp (hrank k hk)
  have hzero : system.coefficientPart.determinant = .ok 0.0 :=
    hdeficient.determinant_eq_zero (by simp [DenseMatrix.isSquare])
      fun k hk state hstate => DenseMatrix.isFinite_iff.mp (hdet k hk state hstate)
  have hvalue : system.coefficientDeterminant = 0.0 :=
    Except.ok.inj (system.determinant_coefficientPart.symm.trans hzero)
  refine ⟨_, DenseMatrix.coefficients_of_isAugmented haug, Nat.le_sub_one_of_lt hless, hzero,
    fun method traced hmethod => ?_, fun traced => ?_, fun hrhs hechelon => ?_⟩
  · have hmethod' : method ≠ .inverseMatrix := by rcases hmethod with rfl | rfl <;> decide
    exact solve_of_rank_lt traced hmethod' hvalid hless
  · rw [← hvalue]
    exact solve_of_singular traced hvalid (hvalue ▸ Double.isNearZero_of_isZero Spoiling.isZero_zero)
  · have hwhole : system.Deficient 0 0 := by
      refine DenseMatrix.deficient_of_rows hrs hr hs fun j hj => ?_
      rcases Nat.lt_succ_iff_lt_or_eq.mp (hcols ▸ hj) with hj | rfl
      · exact hsame j hj
      · exact (Double.beq_iff_sameValue.mp hrhs).2
    exact Nat.le_sub_one_of_lt (hwhole.rank_lt fun k hk =>
      DenseMatrix.isFinite_iff.mp (hechelon k (by omega)))

/-- The first and the last equation have the same coefficients, though the zeros in them have
different signs, and different right-hand sides. -/
theorem verdict_of_repeated_coefficients :
    let system : DenseMatrix Float :=
      ⟨3, 4, #[0.0, 3, 0.1, 5, 7, 2, 3, 4, -0.0, 3, 0.1, 6], rfl⟩
    system.isAugmented = true ∧ system.isFinite = true ∧
      (∀ j < system.rows, (system.entry 0 j == system.entry 2 j) = true) ∧
      (∀ k < system.rows, (system.coefficientPart.echelon k).1.isFinite = true) ∧
      (∀ k < system.rows, ∀ state ∈ system.coefficientPart.determinantUpTo k,
        state.1.isFinite = true) ∧
      ∃ a, system.coefficients = .ok a ∧ a.rank ≤ 2 ∧ a.determinant = .ok 0.0 ∧
        (solve system .gauss true).solution = none ∧
        (solve system .inverseMatrix true).error = some "coefficient matrix is singular" := by
  intro system
  have haug : system.isAugmented = true := rfl
  have hfinite : system.isFinite = true := by decide +kernel
  have hequal : ∀ j < system.rows, (system.entry 0 j == system.entry 2 j) = true := by
    decide +kernel
  have hrank : ∀ k < system.rows, (system.coefficientPart.echelon k).1.isFinite = true := by
    decide +kernel
  have hdet : ∀ k < system.rows, ∀ state ∈ system.coefficientPart.determinantUpTo k,
      state.1.isFinite = true := by
    decide +kernel
  obtain ⟨a, ha, hless, hzero, helimination, hinverse, -⟩ := verdict_of_equal_rows system haug
    hfinite (by decide : 0 ≠ 2) (by decide) (by decide) hequal hrank hdet
  exact ⟨haug, hfinite, hequal, hrank, hdet, a, ha, hless, hzero,
    (helimination .gauss true (.inl rfl)).2, (hinverse true).2.1⟩

end DenseSystem
