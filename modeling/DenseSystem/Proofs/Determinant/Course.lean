import Mathlib.Tactic
import DenseSystem.Determinant
import DenseSystem.Proofs.Elimination.Column
import DenseSystem.Proofs.Rank.Echelon

/-! # The course of a determinant

A determinant is computed one column at a time, each with its own pivot, until a column offers none.
The rows are reduced as for a rank. Nothing is used of the arithmetic.
-/
namespace DenseSystem.DenseMatrix

variable {α : Type} [Scalar α]

theorem determinantStep_eq (work : DenseMatrix α) (det : α) (k : ℕ) :
    work.determinantStep det k =
      if isNearZero (work.pivot k) then none
      else some (work.subtracted k k (work.pivotRow k k),
        (if work.pivotRow k k = k then det else -det) * work.pivot k) := by
  unfold determinantStep
  change (if isNearZero (work.pivot k) then none else _) = _
  split_ifs with hz hp
  · rfl
  · rw [subtracted, pivot, hp, exchangeRows_self]
  · rfl

theorem determinantFrom_succ (work : DenseMatrix α) (det : α) (k left : ℕ) :
    work.determinantFrom det k (left + 1) =
      if isNearZero (work.pivot k) then 0
      else (work.subtracted k k (work.pivotRow k k)).determinantFrom
        ((if work.pivotRow k k = k then det else -det) * work.pivot k) (k + 1) left := by
  rw [determinantFrom, determinantStep_eq]
  cases isNearZero (work.pivot k) <;> rfl

theorem rows_eq_cols_of_isSquare {β : Type} {m : DenseMatrix β} (h : m.isSquare = true) :
    m.rows = m.cols := beq_iff_eq.mp h

theorem determinant_of_isSquare {m : DenseMatrix α} (h : m.isSquare = true) :
    m.determinant = .ok (m.determinantFrom 1 0 m.rows) := by
  rw [determinant, checkSquare, if_pos h]
  rfl

/-- The working matrix before column `k` and the signed product of the pivots so far; nothing if an
earlier column offers no pivot. -/
def determinantUpTo (m : DenseMatrix α) : ℕ → Option (DenseMatrix α × α)
  | 0 => some (m, 1)
  | k + 1 => (m.determinantUpTo k).bind fun state => state.1.determinantStep state.2 k

theorem shape_determinantUpTo {m work : DenseMatrix α} {det : α} {k : ℕ}
    (h : m.determinantUpTo k = some (work, det)) : work.rows = m.rows ∧ work.cols = m.cols := by
  induction k generalizing work det with
  | zero =>
    cases h
    exact ⟨rfl, rfl⟩
  | succ k ih =>
    obtain ⟨⟨before, det'⟩, hbefore, hstep⟩ := Option.bind_eq_some_iff.mp h
    rw [determinantStep_eq] at hstep
    split at hstep
    · cases hstep
    · cases hstep
      obtain ⟨hrows, hcols⟩ := ih hbefore
      exact ⟨hrows, hcols⟩

/-- A determinant goes on from wherever it has come. -/
theorem determinantFrom_of_determinantUpTo {m work : DenseMatrix α} {det : α} {k : ℕ}
    (h : m.determinantUpTo k = some (work, det)) (left : ℕ) :
    m.determinantFrom 1 0 (k + left) = work.determinantFrom det k left := by
  induction k generalizing work det left with
  | zero =>
    cases h
    rw [Nat.zero_add]
  | succ k ih =>
    obtain ⟨⟨before, det'⟩, hbefore, hstep⟩ := Option.bind_eq_some_iff.mp h
    rw [Nat.add_right_comm, Nat.add_assoc, ih hbefore, determinantFrom, hstep]

theorem determinantFrom_of_stuck {m : DenseMatrix α} {k : ℕ} (h : m.determinantUpTo k = none)
    (left : ℕ) : m.determinantFrom 1 0 (k + left) = 0 := by
  induction k generalizing left with
  | zero => cases h
  | succ k ih =>
    rw [Nat.add_right_comm, Nat.add_assoc]
    cases hbefore : m.determinantUpTo k with
    | none => exact ih hbefore _
    | some state =>
      have hstep : state.1.determinantStep state.2 k = none := by
        rwa [determinantUpTo, hbefore] at h
      rw [determinantFrom_of_determinantUpTo hbefore, determinantFrom, hstep]

/-- The pivots that are compared with the tolerance while a determinant is computed. -/
def determinantTests (work : DenseMatrix α) (det : α) (k : ℕ) : ℕ → List α
  | 0 => []
  | left + 1 =>
    work.pivot k ::
      match work.determinantStep det k with
      | none => []
      | some (work, det) => determinantTests work det (k + 1) left

/-- A determinant that is not zero has found a pivot in each column. -/
theorem isNearZero_of_mem_determinantTests {work : DenseMatrix α} {det : α} {k left : ℕ}
    (h : work.determinantFrom det k left ≠ 0) :
    ∀ v ∈ work.determinantTests det k left, isNearZero v = false := by
  induction left generalizing work det k with
  | zero => simp [determinantTests]
  | succ left ih =>
    rw [determinantFrom_succ] at h
    rw [determinantTests, determinantStep_eq]
    cases hp : isNearZero (work.pivot k) with
    | true => simp [hp] at h
    | false =>
      rw [hp] at h
      exact List.forall_mem_cons.mpr ⟨hp, ih h⟩

end DenseSystem.DenseMatrix
