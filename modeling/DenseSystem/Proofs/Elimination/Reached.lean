import Mathlib.Tactic
import DenseSystem.Proofs.Elimination.Column

/-! # How far an elimination comes

The first columns of an elimination are an elimination of their own. A column is reached if those
before it are reduced, and an elimination fails in the one column that is reached without a pivot.
-/
namespace DenseSystem.DenseMatrix

variable {α : Type} [Scalar α]

/-- The elimination of `m` comes to column `k`, and `work` is its working matrix there. -/
def Reaches (m : DenseMatrix α) (sweep : Sweep) (k : ℕ) (work : DenseMatrix α) : Prop :=
  (m.reduceFrom sweep 0 k).outcome = .ok work

variable {m work : DenseMatrix α} {sweep : Sweep} {k : ℕ}

theorem reaches_zero (m : DenseMatrix α) (sweep : Sweep) : m.Reaches sweep 0 m := rfl

theorem outcome_reduceFrom_add (m : DenseMatrix α) (sweep : Sweep) (k first left : ℕ) :
    (m.reduceFrom sweep k (first + left)).outcome =
      (m.reduceFrom sweep k first).outcome >>= fun work =>
        (work.reduceFrom sweep (k + first) left).outcome := by
  induction first generalizing k m with
  | zero =>
    rw [Nat.zero_add]
    rfl
  | succ first ih =>
    rw [Nat.add_right_comm, reduceFrom_succ, reduceFrom_succ, ← Nat.add_assoc, Nat.add_right_comm]
    split_ifs
    · rfl
    · exact ih _ _

theorem Reaches.outcome_reduceFrom (h : m.Reaches sweep k work) (left : ℕ) :
    (m.reduceFrom sweep 0 (k + left)).outcome = (work.reduceFrom sweep k left).outcome := by
  rw [outcome_reduceFrom_add, h, Nat.zero_add]
  rfl

theorem Reaches.next (h : m.Reaches sweep k work) (hp : isNearZero (work.pivot k) = false) :
    m.Reaches sweep (k + 1) (work.reduced k sweep) := by
  rw [Reaches, h.outcome_reduceFrom, reduceFrom_succ, hp]
  rfl

theorem Reaches.shape (h : m.Reaches sweep k work) (hk : k ≤ m.rows) :
    work.rows = m.rows ∧ work.cols = m.cols :=
  rows_of_reduceFrom (by omega) h

/-- What each reduced column preserves holds wherever an elimination comes. -/
theorem Reaches.invariant {P : ℕ → DenseMatrix α → Prop}
    (hstep : ∀ k work, P k work → k < work.rows → isNearZero (work.pivot k) = false →
      P (k + 1) (work.reduced k sweep))
    (h : m.Reaches sweep k work) (hk : k ≤ m.rows) (hinv : P 0 m) : P k work := by
  have hrows : 0 + k ≤ m.rows := by omega
  have hend := reduceFrom_invariant hstep hrows h hinv
  rwa [Nat.zero_add] at hend

theorem Reaches.eq_reducedTo (h : m.Reaches sweep k work) (hk : k ≤ m.rows) :
    work = m.reducedTo sweep k :=
  h.invariant (P := fun k work => work = m.reducedTo sweep k) (fun _ _ hw _ _ => by rw [hw]; rfl) hk rfl

/-- An elimination fails in a column that it reaches and that has no pivot. -/
theorem reduce_eq_error_iff {e : Error} : (m.reduce sweep).outcome = .error e ↔
    ∃ k < m.rows, ∃ work, m.Reaches sweep k work ∧ isNearZero (work.pivot k) = true ∧
      e = .zeroPivot k := by
  constructor
  · intro h
    obtain ⟨k, stuck, -, hk, he, hreach, -, hnear, -⟩ :=
      reduceFrom_failure (P := fun k work => m.Reaches sweep k work)
        (fun k work hreach _ hp => hreach.next hp) (Nat.zero_add m.rows).le h (m.reaches_zero sweep)
    exact ⟨k, by omega, stuck, hreach, hnear, he⟩
  · rintro ⟨k, hk, work, hreach, hnear, rfl⟩
    obtain ⟨left, hleft⟩ := Nat.exists_eq_add_of_lt hk
    rw [reduce, hleft, Nat.add_assoc, hreach.outcome_reduceFrom, reduceFrom_succ, hnear]
    rfl

end DenseSystem.DenseMatrix
