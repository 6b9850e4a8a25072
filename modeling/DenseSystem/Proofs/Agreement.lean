import Mathlib.Tactic
import DenseSystem.Proofs.PivotSearch

/-! # Matrices that agree

Two matrices of the same height may share their first columns, if only from some row on, whatever
stands beside and above. A search for a pivot inside the shared part has the same result in both.
-/
namespace DenseSystem.DenseMatrix

variable {α : Type} [Scalar α]

/-- The first `width` columns are the same from row `first` on. -/
structure AgreeFrom (first width : ℕ) (a b : DenseMatrix α) : Prop where
  rows_eq : a.rows = b.rows
  left_le : width ≤ a.cols
  right_le : width ≤ b.cols
  entry_eq : ∀ i, first ≤ i → i < a.rows → ∀ j < width, a.entry i j = b.entry i j

variable {first width col : ℕ} {a b : DenseMatrix α}

theorem AgreeFrom.mono {later : ℕ} (h : AgreeFrom first width a b) (hle : first ≤ later) :
    AgreeFrom later width a b :=
  ⟨h.rows_eq, h.left_le, h.right_le, fun i hi => h.entry_eq i (hle.trans hi)⟩

/-- A choice along a list depends only on the comparisons of its members. -/
private theorem foldl_choice_congr {β : Type} (better better' : β → β → Bool) {xs : List β}
    {best : β} (h : ∀ x ∈ best :: xs, ∀ y ∈ best :: xs, better x y = better' x y) :
    xs.foldl (fun best x => if better best x then x else best) best =
      xs.foldl (fun best x => if better' best x then x else best) best := by
  induction xs generalizing best with
  | nil => rfl
  | cons x xs ih =>
    have hnext : (if better best x then x else best) ∈ [best, x] := by
      split_ifs <;> simp
    rw [List.foldl_cons, List.foldl_cons, ← h best (by simp) x (by simp)]
    apply ih
    have hsub : ∀ y ∈ (if better best x then x else best) :: xs, y ∈ best :: x :: xs := by
      intro y hy
      rcases List.mem_cons.mp hy with rfl | hy
      · exact List.mem_append_left xs hnext
      · exact List.mem_cons_of_mem _ (List.mem_cons_of_mem _ hy)
    exact fun y hy z hz => h y (hsub y hy) z (hsub z hz)

theorem AgreeFrom.pivotRow_eq (h : AgreeFrom first width a b) (hcol : col < width)
    (hrow : first < a.rows) : a.pivotRow col first = b.pivotRow col first := by
  unfold pivotRow
  rw [← h.rows_eq]
  apply foldl_choice_congr
    (fun best i => Scalar.lt (Scalar.abs (a.entry best col)) (Scalar.abs (a.entry i col)))
    (fun best i => Scalar.lt (Scalar.abs (b.entry best col)) (Scalar.abs (b.entry i col)))
  have hmem : ∀ i ∈ first :: List.range' (first + 1) (a.rows - (first + 1)),
      a.entry i col = b.entry i col := by
    intro i hi
    rcases List.mem_cons.mp hi with rfl | hi
    · exact h.entry_eq _ le_rfl hrow col hcol
    · rw [List.mem_range'_1] at hi
      exact h.entry_eq i (by omega) (by omega) col hcol
  intro i hi j hj
  rw [hmem i hi, hmem j hj]

theorem AgreeFrom.nonzeroRow?_eq (h : AgreeFrom first width a b) (hcol : col < width) :
    a.nonzeroRow? col first = b.nonzeroRow? col first := by
  unfold nonzeroRow?
  rw [← h.rows_eq]
  apply List.find?_congr
  intro i hi
  rw [List.mem_range'_1] at hi
  rw [h.entry_eq i hi.1 (by omega) col hcol]

end DenseSystem.DenseMatrix
