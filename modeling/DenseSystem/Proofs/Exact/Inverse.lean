import Mathlib
import DenseSystem.Proofs.Elimination.Reached
import DenseSystem.Proofs.Exact.Soundness
import DenseSystem.Proofs.Solver.Forward

/-! # Exact inverses

Over the rationals what is returned as an inverse multiplies to the identity from both sides. Where
none is returned, the elimination had come to a column in which the tolerance refuses every entry
that could have been a pivot. A matrix is therefore refused if it is singular, but not only then.
-/
namespace DenseSystem

open Matrix

variable [Tolerance]

namespace DenseMatrix

variable {a b work : DenseMatrix ℚ} {k : ℕ}

/-- A pivot that is refused is the largest of the entries that could have been chosen. -/
theorem abs_entry_lt_of_isNearZero (h : isNearZero (work.pivot k) = true) {i : ℕ} (hki : k ≤ i)
    (hi : i < work.rows) : |work.entry i k| < Scalar.tolerance := by
  rw [pivot, Exact.isNearZero_iff] at h
  exact (work.abs_entry_le_pivotRow k hki hi).trans_lt h

/-- An inverse has the shape of the matrix and multiplies to the identity from the left. -/
theorem mul_of_inverse (h : a.inverse = .ok b) :
    b.rows = a.rows ∧ b.cols = a.rows ∧ b.toMatrix a.rows a.rows * a.toMatrix a.rows a.rows = 1 := by
  obtain ⟨work, hwork, rfl, -⟩ := invert_eq_rightHalf h
  exact ⟨rfl, rfl, rightHalf_mul hwork⟩

/-- A matrix without inverse is refused in a column that is near zero from its diagonal on. -/
theorem stuck_of_inverse {e : Error} (hsquare : a.isSquare = true) (h : a.inverse = .error e) :
    ∃ k < a.rows, e = .zeroPivot k ∧ ∃ work, a.besideIdentity.Reaches .all k work ∧
      (work.reduceColumn k .all).outcome = .error e ∧
      ∀ i, k ≤ i → i < a.rows → |work.entry i k| < Scalar.tolerance := by
  rw [inverse_eq_error_iff hsquare] at h
  obtain ⟨k, (hk : k < a.rows), work, hreach, hnear, rfl⟩ := reduce_eq_error_iff.mp h
  obtain ⟨(hrows : work.rows = a.rows), -⟩ := hreach.shape hk.le
  refine ⟨k, hk, rfl, work, hreach, ?_, fun i hki hi => ?_⟩
  · rw [reduceColumn_eq, if_pos hnear]
  · exact abs_entry_lt_of_isNearZero hnear hki (hrows ▸ hi)

end DenseMatrix

/-- Either there is an inverse, on both sides, and the matrix is nonsingular. Or the elimination of
the matrix beside the identity stops in a column whose entries from the diagonal on are all below
the tolerance. -/
theorem inverse_two_sided (a : DenseMatrix ℚ) (hsquare : a.isSquare = true) :
    (∃ b, a.inverse = .ok b ∧ b.rows = a.rows ∧ b.cols = a.rows ∧
        a.toMatrix a.rows a.rows * b.toMatrix a.rows a.rows = 1 ∧
        b.toMatrix a.rows a.rows * a.toMatrix a.rows a.rows = 1 ∧
        (a.toMatrix a.rows a.rows).det ≠ 0) ∨
      ∃ k < a.rows, a.inverse = .error (.zeroPivot k) ∧
        ∃ work, a.besideIdentity.Reaches .all k work ∧
          (work.reduceColumn k .all).outcome = .error (.zeroPivot k) ∧
          ∀ i, k ≤ i → i < a.rows → |work.entry i k| < Scalar.tolerance := by
  cases h : a.inverse with
  | ok b =>
    obtain ⟨hrows, hcols, hleft⟩ := DenseMatrix.mul_of_inverse h
    have hright := mul_eq_one_comm.mp hleft
    exact .inl ⟨b, rfl, hrows, hcols, hright, hleft, det_ne_zero_of_right_inverse hright⟩
  | error e =>
    obtain ⟨k, hk, rfl, work, hreach, hstuck, hsmall⟩ := DenseMatrix.stuck_of_inverse hsquare h
    exact .inr ⟨k, hk, rfl, work, hreach, hstuck, hsmall⟩

omit [Tolerance] in
/-- The elimination of the first matrix exchanges its rows. The second is nonsingular and refused. -/
theorem inverse_of_two_matrices :
    let _ : Tolerance := .decimal
    let a : DenseMatrix ℚ := ⟨2, 2, #[1, 2, 3, 4], rfl⟩
    let tiny : DenseMatrix ℚ := ⟨2, 2, #[1, 0, 0, 1 / 10 ^ 13], rfl⟩
    (a.isSquare = true ∧ ∃ b, a.inverse = .ok b ∧ a.toMatrix 2 2 * b.toMatrix 2 2 = 1) ∧
      tiny.isSquare = true ∧ ∃ k < 2, tiny.inverse = .error (.zeroPivot k) ∧
        ∃ work, tiny.besideIdentity.Reaches .all k work ∧ |work.entry 1 k| < 1e-12 := by
  intro _ a tiny
  have ha : a.inverse.isOk = true := by decide +kernel
  have htiny : tiny.inverse.isOk = false := by decide +kernel
  refine ⟨⟨rfl, ?_⟩, rfl, ?_⟩
  · rcases inverse_two_sided a rfl with ⟨b, hb, -, -, hmul, -⟩ | ⟨k, -, he, -⟩
    · exact ⟨b, hb, hmul⟩
    · rw [he] at ha
      cases ha
  · rcases inverse_two_sided tiny rfl with ⟨b, hb, -⟩ | ⟨k, hk, he, work, hreach, -, hsmall⟩
    · rw [hb] at htiny
      cases htiny
    · exact ⟨k, hk, he, work, hreach, hsmall 1 (Nat.le_of_lt_succ hk) (by decide)⟩

end DenseSystem
