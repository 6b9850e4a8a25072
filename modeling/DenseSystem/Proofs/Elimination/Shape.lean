import Mathlib.Tactic
import DenseSystem.Proofs.Elimination.Reached

/-! # The shape of a reduced matrix

Once a column is done it has a one on the diagonal and zeros wherever the sweep reaches, and later
columns leave it so. Over doubles a zero may be negative, hence zeros are told by `isZero`.
-/
namespace DenseSystem.DenseMatrix

variable {α : Type} [Scalar α]

/-- The first `k` columns have ones on the diagonal and zeros in the rows that the sweep reaches. -/
def ReducedUpTo (sweep : Sweep) (k : ℕ) (m : DenseMatrix α) : Prop :=
  ∀ j < k, m.entry j j = 1 ∧
    ∀ i < m.rows, sweep.reaches j i = true → Scalar.isZero (m.entry i j) = true

variable {sweep : Sweep} {k : ℕ} {work : DenseMatrix α}

/-- Reducing one more column keeps the shape of the columns before it and extends it by one. -/
theorem ReducedUpTo.next (hzero : Scalar.isZero (0 : α) = true) (hshape : work.rows ≤ work.cols)
    (h : ReducedUpTo sweep k work) (hk : k < work.rows) :
    ReducedUpTo sweep (k + 1) (work.reduced k sweep) := by
  have hkc : k < work.cols := by omega
  intro j hj
  rcases Nat.lt_succ_iff_lt_or_eq.mp hj with hjk | rfl
  · obtain ⟨hone, hzeros⟩ := h j hjk
    constructor
    · rw [entry_reduced_left sweep (by omega) (by omega) hjk, sourceRow_of_lt work hjk]
      exact hone
    · intro i hi hreach
      rw [rows_reduced] at hi
      rw [entry_reduced_left sweep hi (by omega) hjk]
      by_cases hik : i < k
      · rw [sourceRow_of_lt work hik]
        exact hzeros i hi hreach
      · -- rows without a pivot may change places, but all of them hold a zero here
        have hsource := work.le_sourceRow (i := i) (by omega : k ≤ i)
        exact hzeros _ (work.sourceRow_lt hk hi) (reaches_of_lt sweep (by omega))
  · constructor
    · exact entry_reduced_self sweep hk hkc
    · intro i hi hreach
      rw [rows_reduced] at hi
      have hne := ne_of_reaches hreach
      cases ht : (work.normalized j).isTarget j sweep i with
      | true =>
        rw [entry_reduced_column sweep hi hkc ht]
        exact hzero
      | false =>
        rw [entry_reduced_of_not_isTarget sweep hi hkc ht, entry_normalized_of_ne hi hkc hne]
        rw [isTarget_normalized sweep hi hkc hne, hreach] at ht
        simpa using ht

theorem Reaches.reducedUpTo (hzero : Scalar.isZero (0 : α) = true) {m : DenseMatrix α}
    (hshape : m.rows ≤ m.cols) (h : m.Reaches sweep k work) (hk : k ≤ m.rows) :
    ReducedUpTo sweep k work := by
  have hstart : ReducedUpTo sweep 0 m := fun j hj => absurd hj (Nat.not_lt_zero j)
  have hend := h.invariant (P := fun k work => ReducedUpTo sweep k work ∧ work.rows ≤ work.cols)
    (fun k work hwork hk _ => ⟨hwork.1.next hzero hwork.2 hk, hwork.2⟩) hk ⟨hstart, hshape⟩
  exact hend.1

/-- A complete elimination leaves every diagonal entry one and all that the sweep reaches zero. -/
theorem reducedUpTo_reduce (hzero : Scalar.isZero (0 : α) = true) {result : DenseMatrix α}
    (hshape : work.rows ≤ work.cols) (h : (work.reduce sweep).outcome = .ok result) :
    ReducedUpTo sweep work.rows result :=
  Reaches.reducedUpTo hzero hshape h le_rfl

end DenseSystem.DenseMatrix
