import Mathlib
import DenseSystem.Proofs.Double.Largest
import DenseSystem.Proofs.Guarded.Solver
import DenseSystem.Proofs.Solver.Rearranged

/-! # Residuals and the largest of them

The residuals of a vector are the products with the coefficients less the right-hand side. They are
refused for a matrix of another shape and for a vector of another length, and for nothing else. The
largest of their magnitudes does not depend on the order of the equations.
-/
namespace DenseSystem

namespace DenseMatrix

section Shapes

variable {α : Type} [Scalar α] {system : DenseMatrix α} {x : List α}

omit [Scalar α] in
theorem checkAugmented_of_not_isAugmented (h : system.isAugmented = false) :
    system.checkAugmented = .error (.invalidShape system.rows system.cols .notAugmented) :=
  if_neg (by simp [h])

theorem residuals_of_not_isAugmented (h : system.isAugmented = false) (x : List α) :
    system.residuals x = .error (.invalidShape system.rows system.cols .notAugmented) := by
  rw [residuals, checkAugmented_of_not_isAugmented h]
  rfl

theorem residuals_of_length_ne (haug : system.isAugmented = true) (h : x.length ≠ system.rows) :
    system.residuals x = .error (.dimensionMismatch system.rows x.length) := by
  rw [residuals, checkAugmented_of_isAugmented haug]
  exact if_neg h

/-- The shape of a system is looked at before the length of a vector. -/
theorem residuals_refused (system : DenseMatrix α) (x : List α) :
    (system.residuals x = .error (.invalidShape system.rows system.cols .notAugmented) ↔
      system.isAugmented = false) ∧
    (system.residuals x = .error (.dimensionMismatch system.rows x.length) ↔
      system.isAugmented = true ∧ x.length ≠ system.rows) := by
  cases haug : system.isAugmented with
  | false => simp [residuals_of_not_isAugmented haug]
  | true =>
    by_cases hlength : x.length = system.rows
    · simp [residuals_eq haug hlength, hlength]
    · simp [residuals_of_length_ne haug hlength, hlength]

theorem multiply_coefficientPart (h : x.length = system.rows) :
    system.coefficientPart.multiply x = .ok ((List.range system.rows).map fun i =>
      scalarProduct ((List.range system.rows).map (system.entry i)) x) := by
  rw [multiply_eq h]
  refine congrArg Except.ok (List.map_congr_left fun i hi => ?_)
  congr 1
  refine List.map_congr_left fun j hj => ?_
  exact system.entry_coefficientPart (List.mem_range.mp hi) (List.mem_range.mp hj)

theorem residuals_eq_zipWith (haug : system.isAugmented = true) (h : x.length = system.rows) :
    ∃ products, system.coefficientPart.multiply x = .ok products ∧
      products.length = system.rows ∧
      system.residuals x = .ok (List.zipWith (· - ·) products system.rhsPart) := by
  refine ⟨_, multiply_coefficientPart h, by simp, ?_⟩
  rw [residuals_eq haug h, rhsPart, List.zipWith_map, List.zipWith_self]
  rfl

theorem maxResidual_eq (system : DenseMatrix α) (x : List α) :
    system.maxResidual x = (system.residuals x).map fun rs => largest (rs.map Scalar.abs) := by
  rw [maxResidual]
  cases system.residuals x <;> rfl

end Shapes

theorem maxResidual_permuteRows (system : DenseMatrix Float) (σ : Equiv.Perm (Fin system.rows))
    (x : List Float) : (system.permuteRows σ).maxResidual x = system.maxResidual x := by
  have hsame : (system.permuteRows σ).isAugmented = system.isAugmented := rfl
  rw [maxResidual_eq, maxResidual_eq]
  cases haug : system.isAugmented with
  | false =>
    rw [residuals_of_not_isAugmented haug, residuals_of_not_isAugmented (hsame.trans haug)]
    rfl
  | true =>
    by_cases hlength : x.length = system.rows
    · rw [residuals_eq haug hlength, residuals_eq (hsame.trans haug) hlength]
      exact congrArg Except.ok (Double.largest_abs_perm (system.residuals_perm σ haug x))
    · rw [residuals_of_length_ne haug hlength, residuals_of_length_ne (hsame.trans haug) hlength]
      rfl

end DenseMatrix

namespace Guarded

open DenseMatrix

/-- Systems of all shapes are refused or accepted, and no access is out of range. -/
theorem residuals_of_rows {α : Type} [Scalar α] {system : DenseMatrix α}
    (h : system.rows + 1 < wordCount) (x : List α) :
    residuals system x = Run.of (.ofExcept (system.residuals x)) := by
  cases haug : system.isAugmented with
  | true => exact residuals_eq haug h
  | false =>
    have hfallible : (Run.fallible (checkAugmented system) : Run α Unit) =
        Run.of (.ofExcept system.checkAugmented) := Run.fallible_eq (checkAugmented_eq h)
    rw [residuals, hfallible, checkAugmented_of_not_isAugmented haug,
      residuals_of_not_isAugmented haug]
    rfl

end Guarded

/-- A vector has residuals if it has a value for each unknown of a system, and no access on the way
to them is out of range. They are the products with the coefficients less the right-hand side, value
by value. The largest residual is NaN if one of them is, and otherwise the largest of their
magnitudes, in any order of the equations. -/
theorem residuals_and_maxResidual (system : DenseMatrix Float) (hrows : system.rows < 2 ^ 64 - 1)
    (x : List Float) :
    Guarded.residuals system x = Run.of (.ofExcept (system.residuals x)) ∧
    (system.residuals x = .error (.invalidShape system.rows system.cols .notAugmented) ↔
      system.isAugmented = false) ∧
    (system.residuals x = .error (.dimensionMismatch system.rows x.length) ↔
      system.isAugmented = true ∧ x.length ≠ system.rows) ∧
    (system.isAugmented = true → x.length = system.rows →
      ∃ a products b rs worst, system.coefficients = .ok a ∧ a.multiply x = .ok products ∧
        system.rhs = .ok b ∧ products.length = system.rows ∧ b.length = system.rows ∧
        system.residuals x = .ok rs ∧ rs = List.zipWith (· - ·) products b ∧
        system.maxResidual x = .ok worst ∧ Double.IsLargestMagnitude worst rs) ∧
    (∀ e, system.maxResidual x = .error e ↔ system.residuals x = .error e) ∧
    ∀ σ : Equiv.Perm (Fin system.rows),
      (system.permuteRows σ).maxResidual x = system.maxResidual x := by
  have hword : system.rows + 1 < Guarded.wordCount := by
    rw [Guarded.wordCount]
    omega
  obtain ⟨hshape, hmismatch⟩ := system.residuals_refused x
  refine ⟨Guarded.residuals_of_rows hword x, hshape, hmismatch, fun haug hlength => ?_, fun e => ?_,
    fun σ => system.maxResidual_permuteRows σ x⟩
  · obtain ⟨products, hproducts, hcount, hresiduals⟩ :=
      DenseMatrix.residuals_eq_zipWith haug hlength
    have hne : List.zipWith (· - ·) products system.rhsPart ≠ [] := by
      obtain ⟨hpos, -⟩ := DenseMatrix.isAugmented_iff.mp haug
      rw [← List.length_pos_iff, List.length_zipWith, hcount, system.length_rhsPart, min_self]
      exact hpos
    refine ⟨_, products, _, _, _, DenseMatrix.coefficients_of_isAugmented haug, hproducts,
      DenseMatrix.rhs_of_isAugmented haug, hcount, system.length_rhsPart, hresiduals, rfl, ?_,
      Double.isLargestMagnitude_largest hne⟩
    rw [DenseMatrix.maxResidual_eq, hresiduals]
    rfl
  · rw [DenseMatrix.maxResidual_eq]
    cases system.residuals x <;> simp [Except.map]

/-- An infinite residual, NaN, and a finite residual after it. -/
theorem maxResidual_of_three_equations :
    let system : DenseMatrix Float :=
      ⟨3, 4, #[1e10, 0, 0, 1, 1e10, -1e10, 0, 1, 0, 0, 1, 0], rfl⟩
    let x : List Float := [1e300, 1e300, 1]
    ∃ worst, system.maxResidual x = .ok worst ∧ worst.isNaN = true ∧
      (system.permuteRows (finRotate 3)).maxResidual x = .ok worst := by
  intro system x
  obtain ⟨-, -, -, hvalues, -, hrotated⟩ := residuals_and_maxResidual system (by decide) x
  obtain ⟨-, -, -, rs, worst, -, -, -, -, -, hrs, -, hworst, hlargest⟩ := hvalues rfl rfl
  have hmarked : (system.residuals x).toOption.map (·.map Float.isNaN) =
      some [false, true, false] := by decide +kernel
  have hnan : ∃ r ∈ rs, r.isNaN = true := by
    rw [hrs] at hmarked
    have hmarks : rs.map Float.isNaN = [false, true, false] := Option.some.inj hmarked
    rw [← List.mem_map, hmarks]
    decide
  exact ⟨worst, hworst, hlargest.isNaN_iff.mpr hnan, (hrotated (finRotate 3)).trans hworst⟩

end DenseSystem
