import Mathlib
import DenseSystem.Residual
import DenseSystem.Proofs.PivotSearch

/-! # Exact arithmetic

Over the rationals the operations of the algorithms are those of the field: magnitudes, sums,
comparisons, and with them the two searches for a pivot.
-/
namespace DenseSystem

/-- The tolerance of doubles, exactly as it is written. -/
@[reducible] def Tolerance.decimal : Tolerance := ⟨1e-12, by norm_num⟩

variable [Tolerance]

namespace Exact

theorem isZero_iff {x : ℚ} : Scalar.isZero x = true ↔ x = 0 := decide_eq_true_iff

theorem lt_iff {x y : ℚ} : Scalar.lt x y = true ↔ x < y := decide_eq_true_iff

theorem abs_eq (x : ℚ) : Scalar.abs x = |x| := by
  change (if x < 0 then -x else x) = |x|
  split_ifs with h
  · exact (abs_of_neg h).symm
  · exact (abs_of_nonneg (not_lt.mp h)).symm

theorem tolerance_pos : (0 : ℚ) < Scalar.tolerance := Tolerance.pos

theorem isNearZero_iff {x : ℚ} : isNearZero x = true ↔ |x| < Scalar.tolerance := by
  rw [isNearZero, lt_iff, abs_eq]

theorem isNearZero_eq_false_iff {x : ℚ} : isNearZero x = false ↔ Scalar.tolerance ≤ |x| := by
  rw [← not_lt, ← isNearZero_iff, Bool.not_eq_true]

theorem ne_zero_of_not_isNearZero {x : ℚ} (h : isNearZero x = false) : x ≠ 0 := by
  rintro rfl
  rw [isNearZero_eq_false_iff, abs_zero] at h
  exact absurd tolerance_pos (not_lt.mpr h)

theorem isFinite_eq_true (x : ℚ) : Scalar.isFinite x = true := rfl

theorem all_isFinite (xs : List ℚ) : xs.all Scalar.isFinite = true :=
  List.all_eq_true.mpr fun x _ => isFinite_eq_true x

theorem sum_eq (xs : List ℚ) : DenseSystem.sum xs = xs.sum := by
  have hstart (start : ℚ) : xs.foldl (fun s x => s + x) start = start + xs.sum := by
    induction xs generalizing start with
    | nil => simp
    | cons x xs ih => rw [List.foldl_cons, ih, List.sum_cons, add_assoc]
  exact (hstart 0).trans (zero_add _)

/-- A value that the tolerance does not mistake: zero, or too large to count as zero. -/
def Clear (x : ℚ) : Prop := x = 0 ∨ Scalar.tolerance ≤ |x|

theorem Clear.eq_zero {x : ℚ} (h : Clear x) (hz : isNearZero x = true) : x = 0 := by
  rcases h with h | h
  · exact h
  · rw [isNearZero_iff] at hz
    exact absurd hz (not_lt.mpr h)

end Exact

namespace DenseMatrix

theorem abs_entry_le_pivotRow (m : DenseMatrix ℚ) (col : ℕ) {first i : ℕ} (hfirst : first ≤ i)
    (hi : i < m.rows) : |m.entry i col| ≤ |m.entry (m.pivotRow col first) col| := by
  refine m.pivotRow_invariant (P := fun last best => ∀ i, first ≤ i → i < last →
    |m.entry i col| ≤ |m.entry best col|) col (hfirst.trans_lt hi) ?_ ?_ i hfirst hi
  · intro i hle hlt
    rw [show i = first by omega]
  · intro best last _ _ hbest i hle hlt
    rw [better, Exact.abs_eq, Exact.abs_eq]
    rcases Nat.lt_succ_iff_lt_or_eq.mp hlt with hbefore | rfl
    · split_ifs with hless
      · exact (hbest i hle hbefore).trans (Exact.lt_iff.mp hless).le
      · exact hbest i hle hbefore
    · split_ifs with hless
      · exact le_rfl
      · exact not_lt.mp (mt Exact.lt_iff.mpr hless)

end DenseMatrix

end DenseSystem
