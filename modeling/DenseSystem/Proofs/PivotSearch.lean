import Mathlib.Tactic
import DenseSystem.Pivot

/-! # What the searches for a pivot return

The search for the largest magnitude always names a row from its start on. The search for an entry
that is not near zero names the first one, or tells that there is none.
-/
namespace DenseSystem.DenseMatrix

variable {α : Type} [Scalar α]

/-- The better of two rows as the pivot of a column: the second one if its magnitude is larger. -/
def better (m : DenseMatrix α) (col best i : ℕ) : ℕ :=
  if Scalar.lt (Scalar.abs (m.entry best col)) (Scalar.abs (m.entry i col)) then i else best

/-- What each comparison preserves, a statement on the best of the rows before row `last`, holds of
the row that is found. -/
theorem pivotRow_invariant {P : ℕ → ℕ → Prop} (m : DenseMatrix α) (col : ℕ) {first : ℕ}
    (hfirst : first < m.rows) (hstart : P (first + 1) first)
    (hstep : ∀ best last, first < last → last < m.rows → P last best →
      P (last + 1) (m.better col best last)) : P m.rows (m.pivotRow col first) := by
  have hsearched : ∀ count, first + 1 + count ≤ m.rows →
      P (first + 1 + count) ((List.range' (first + 1) count).foldl (m.better col) first) := by
    intro count hcount
    induction count with
    | zero => exact hstart
    | succ count ih =>
      rw [List.range'_1_concat, List.foldl_concat]
      exact hstep _ (first + 1 + count) (by omega) hcount (ih (by omega))
  have hall := hsearched (m.rows - (first + 1)) (by omega)
  rwa [Nat.add_sub_cancel' hfirst] at hall

theorem pivotRow_bounds (m : DenseMatrix α) (col : ℕ) {first : ℕ} (hfirst : first < m.rows) :
    first ≤ m.pivotRow col first ∧ m.pivotRow col first < m.rows := by
  refine m.pivotRow_invariant (P := fun last best => first ≤ best ∧ best < last) col hfirst
    ⟨le_rfl, Nat.lt_succ_self first⟩ fun best last hlast _ hbest => ?_
  unfold better
  split_ifs <;> omega

theorem le_pivotRow (m : DenseMatrix α) (col first : ℕ) : first ≤ m.pivotRow col first := by
  by_cases hfirst : first < m.rows
  · exact (m.pivotRow_bounds col hfirst).1
  · have hempty : m.rows - (first + 1) = 0 := by omega
    rw [pivotRow, hempty]
    exact le_rfl

theorem pivotRow_lt (m : DenseMatrix α) (col : ℕ) {first : ℕ} (hfirst : first < m.rows) :
    m.pivotRow col first < m.rows :=
  (m.pivotRow_bounds col hfirst).2

theorem nonzeroRow?_eq_none_iff (m : DenseMatrix α) (col first : ℕ) :
    m.nonzeroRow? col first = none ↔
      ∀ i, first ≤ i → i < m.rows → isNearZero (m.entry i col) = true := by
  simp only [nonzeroRow?, List.find?_eq_none, List.mem_range'_1]
  constructor
  · intro h i hi hrows
    simpa using h i ⟨hi, by omega⟩
  · intro h i hi
    simpa using h i hi.1 (by omega)

theorem nonzeroRow?_spec {m : DenseMatrix α} {col first p : ℕ}
    (h : m.nonzeroRow? col first = some p) :
    first ≤ p ∧ p < m.rows ∧ isNearZero (m.entry p col) = false := by
  have hmem := List.mem_of_find?_eq_some h
  have hp := List.find?_some h
  rw [List.mem_range'_1] at hmem
  exact ⟨hmem.1, by omega, by simpa using hp⟩

end DenseSystem.DenseMatrix
