import Mathlib.Tactic
import DenseSystem.Proofs.Double.EqualColumns.Elimination
import DenseSystem.Proofs.Double.SignedZeros
import DenseSystem.Proofs.Elimination.Reached
import DenseSystem.Proofs.Solver.Forward

/-! # Equal columns in an inversion

As long as nothing overflows, two equal columns stop an elimination in the second of them at the
latest. The row of the first pivot is divided by the pivot before it is subtracted, so it holds an
exact one in the second column, and what is subtracted there is what is there. The zeros in two equal
columns may have different signs.
-/
namespace DenseSystem

namespace DenseMatrix

variable {α : Type} [Scalar α]

/-- In the rows without a pivot, columns `c` and `d` are the same until the first of them is reduced,
and from then on the second one is zero. -/
structure Twins (c d k : ℕ) (work : DenseMatrix α) : Prop where
  same : k ≤ c → ∀ i, k ≤ i → i < work.rows → SameValue (work.entry i c) (work.entry i d)
  zero : c < k → ∀ i, k ≤ i → i < work.rows → Scalar.isZero (work.entry i d) = true

variable {a work : DenseMatrix α} {sweep : Sweep} {c d k i : ℕ}

/-- A matrix has no inverse if its own elimination lacks a pivot, by either sweep. -/
theorem inverse_eq_error_of_reduce (hsquare : a.isSquare = true)
    (h : (a.reduce sweep).outcome = .error (.zeroPivot k)) : a.inverse = .error (.zeroPivot k) := by
  have hwidth := (Nat.zero_add a.rows).le
  rw [inverse_eq_error_iff hsquare]
  exact (((agreeFrom_besideIdentity hsquare).reduceFrom hwidth hwidth sweep .all).2 _).mp h

variable [SignlessZeros α]

theorem EntriesFinite.usable (h : work.EntriesFinite) (hk : k < work.rows) (hkc : k < work.cols)
    (hnear : isNearZero (work.pivot k) = false) : work.Usable k sweep where
  pivot := SignlessZeros.isNaN_eq_false (h _ (work.pivotRow_lt k hk) k hkc)
    (Cancelling.isZero_eq_false hnear)
  factor _ hi _ := h _ (work.sourceRow_lt hk hi) k hkc

namespace Twins

theorem sameValue_reduced (h : work.Twins c d k) (hk : k < work.rows) (hkc : k < c) (hcd : c < d)
    (hd : d < work.cols) (hnear : isNearZero (work.pivot k) = false) (hfinite : work.EntriesFinite)
    (hki : k < i) (hi : i < work.rows) :
    SameValue ((work.reduced k sweep).entry i c) ((work.reduced k sweep).entry i d) := by
  have husable : work.Usable k sweep := hfinite.usable hk (by omega) hnear
  have hsource := h.same hkc.le _ (work.le_sourceRow hki.le) (work.sourceRow_lt hk hi)
  have hquotient := (h.same hkc.le _ (work.le_pivotRow k k) (work.pivotRow_lt k hk)).div
    husable.pivot (Cancelling.isZero_eq_false hnear)
  have hfactor := husable.factor i hi (reaches_of_lt sweep hki)
  rw [entry_reduced_below sweep hk (by omega) hki hi (by omega),
    entry_reduced_below sweep hk (by omega) hki hi hd]
  simp only [if_neg hkc.ne', if_neg (hkc.trans hcd).ne', not_lt.mpr hkc.le,
    not_lt.mpr (hkc.trans hcd).le, or_false]
  split_ifs
  · exact hsource
  · exact hsource.sub (hquotient.mul_left hfactor)

theorem isZero_reduced_first (h : work.Twins c d c) (hc : c < work.rows) (hcd : c < d)
    (hd : d < work.cols) (hnear : isNearZero (work.pivot c) = false)
    (hfinite : work.EntriesFinite) (hci : c < i) (hi : i < work.rows) :
    Scalar.isZero ((work.reduced c sweep).entry i d) = true := by
  have hpivot := Cancelling.isZero_eq_false hnear
  have hsource := h.same le_rfl _ (work.le_sourceRow hci.le) (work.sourceRow_lt hc hi)
  have hone := (h.same le_rfl _ (work.le_pivotRow c c)
    (work.pivotRow_lt c hc)).eq_of_isZero_eq_false hpivot
  rw [entry_reduced_below sweep hc (by omega) hci hi hd, ← hone]
  simp only [if_neg hcd.ne', not_lt.mpr hcd.le, or_false]
  split_ifs with hzero
  · exact hsource.isZero_eq ▸ hzero
  · rw [Bool.not_eq_true] at hzero
    rw [← hsource.eq_of_isZero_eq_false hzero]
    exact Cancelling.isZero_sub_mul_div_self (hfinite _ (work.sourceRow_lt hc hi) c (by omega))
      (hfinite _ (work.pivotRow_lt c hc) c (by omega)) hpivot

theorem next (h : work.Twins c d k) (hcd : c < d) (hkd : k < d) (hk : k < work.rows)
    (hd : d < work.cols) (hnear : isNearZero (work.pivot k) = false)
    (hfinite : work.EntriesFinite) : (work.reduced k sweep).Twins c d (k + 1) where
  same hkc _ hi hrow := h.sameValue_reduced hk hkc hcd hd hnear hfinite hi hrow
  zero hck i hi hrow := by
    rcases Nat.lt_succ_iff_lt_or_eq.mp hck with hck | rfl
    · exact isZero_reduced hk hkd hd (h.zero hck) hnear (hfinite.usable hk (by omega) hnear) hrow hi
    · exact h.isZero_reduced_first hk hcd hd hnear hfinite hi hrow

end Twins

/-- Wherever an elimination comes up to the second column, they are as described. -/
theorem twins_of_reaches (hcd : c < d) (hd : d < a.cols) (hdr : d < a.rows)
    (hequal : ∀ i < a.rows, SameValue (a.entry i c) (a.entry i d))
    (hfinite : ∀ k ≤ d, ∀ work, a.Reaches sweep k work → work.EntriesFinite)
    (h : a.Reaches sweep k work) (hkd : k ≤ d) : work.Twins c d k := by
  have hstart : a.Twins c d 0 := ⟨fun _ i _ hi => hequal i hi, fun h0 => absurd h0 c.not_lt_zero⟩
  refine (h.invariant (P := fun k work => a.Reaches sweep k work ∧ work.rows = a.rows ∧
    work.cols = a.cols ∧ (k ≤ d → work.Twins c d k)) ?_ (by omega)
    ⟨a.reaches_zero sweep, rfl, rfl, fun _ => hstart⟩).2.2.2 hkd
  intro k work ⟨hreach, hrows, hcols, hwork⟩ hk hnear
  refine ⟨hreach.next hnear, hrows, hcols, fun hkd => ?_⟩
  exact (hwork (by omega)).next hcd hkd hk (by omega) hnear (hfinite k (by omega) work hreach)

/-- Some column up to the second one has no pivot. -/
theorem reduce_eq_error_of_equal_columns (hcd : c < d) (hd : d < a.cols) (hdr : d < a.rows)
    (hequal : ∀ i < a.rows, SameValue (a.entry i c) (a.entry i d))
    (hfinite : ∀ k ≤ d, ∀ work, a.Reaches sweep k work → work.EntriesFinite) :
    ∃ k ≤ d, (a.reduce sweep).outcome = .error (.zeroPivot k) := by
  cases hrun : (a.reduceFrom sweep 0 d).outcome with
  | error e =>
    obtain ⟨k, stuck, -, hk, rfl, hreach, -, hnear, -⟩ :=
      reduceFrom_failure (P := fun k work => a.Reaches sweep k work)
        (fun k work hreach _ hp => hreach.next hp) (by omega) hrun (a.reaches_zero sweep)
    exact ⟨k, by omega, reduce_eq_error_iff.mpr ⟨k, by omega, stuck, hreach, hnear, rfl⟩⟩
  | ok work =>
    have htwins := twins_of_reaches hcd hd hdr hequal hfinite hrun le_rfl
    obtain ⟨hrows, -⟩ := Reaches.shape hrun hdr.le
    have hzero := htwins.zero hcd _ (work.le_pivotRow d d) (work.pivotRow_lt d (hrows ▸ hdr))
    exact ⟨d, le_rfl, reduce_eq_error_iff.mpr
      ⟨d, hdr, work, hrun, Cancelling.isNearZero_of_isZero hzero, rfl⟩⟩

end DenseMatrix

/-- Coefficients without inverse have no unique solution, whatever the right-hand side. -/
theorem status_solve_ne_unique_of_inverse {α : Type} [Scalar α] {a : DenseMatrix α} {e : Error}
    (hsquare : a.isSquare = true) (hpos : 1 ≤ a.rows) (h : a.inverse = .error e) (b : List α)
    (method : Method) (traced : Bool) : (solve (a.withRhs b) method traced).status ≠ .unique := by
  intro hunique
  obtain ⟨x, r, hrun⟩ := solved_of_status_eq_unique hunique
  obtain ⟨hcandidate, -, -⟩ := DenseMatrix.attempt_eq_solved hrun
  obtain ⟨-, work, hwork, -⟩ := DenseMatrix.reduced_of_candidate hcandidate
  have haug : (a.withRhs b).isAugmented = true := DenseMatrix.isAugmented_iff.mpr ⟨hpos, rfl⟩
  have hstuck := ((DenseMatrix.reduction_forward haug method).2 e).mpr
  rw [DenseMatrix.coefficientPart_withRhs hsquare b] at hstuck
  rw [hstuck ((DenseMatrix.inverse_eq_error_iff hsquare).mp h)] at hwork
  cases hwork

/-- Over doubles, take a finite square matrix with two equal columns, and suppose that its
elimination by either sweep does not overflow before it comes to the second of them. Then its
inversion fails for want of a pivot, in that column at the latest, and no method reports a unique
solution with any finite right-hand side. -/
theorem stuck_of_equal_columns (a : DenseMatrix Float) (hsquare : a.isSquare = true)
    (hfinite : a.isFinite = true) {c d : ℕ} (hcd : c < d) (hd : d < a.rows)
    (hequal : ∀ i < a.rows, (a.entry i c == a.entry i d) = true) (sweep : Sweep)
    (hreached : ∀ k ≤ d, ∀ work, a.Reaches sweep k work → work.isFinite = true) :
    (∃ k ≤ d, a.inverse = .error (.zeroPivot k)) ∧
      ∀ b : List Float, b.length = a.rows → b.all Scalar.isFinite = true →
        ∃ system, a.augment b = .ok system ∧ system.validate = .ok () ∧
          ∀ method traced, (solve system method traced).status ≠ .unique := by
  have hcols := DenseMatrix.rows_eq_cols_of_isSquare hsquare
  obtain ⟨k, hk, hstuck⟩ := DenseMatrix.reduce_eq_error_of_equal_columns hcd (hcols ▸ hd) hd
    (fun i hi => (Double.beq_iff_sameValue.mp (hequal i hi)).2)
    (fun k hk work hwork => DenseMatrix.isFinite_iff.mp (hreached k hk work hwork))
  have hinverse := DenseMatrix.inverse_eq_error_of_reduce hsquare hstuck
  refine ⟨⟨k, hk, hinverse⟩, fun b hlength hb => ⟨_, DenseMatrix.augment_eq hsquare hlength,
    DenseMatrix.validate_withRhs hsquare (by omega) hfinite hlength hb, fun method traced => ?_⟩⟩
  exact status_solve_ne_unique_of_inverse hsquare (by omega) hinverse b method traced

/-- The first column and the last differ in the sign of a zero only. -/
theorem stuck_of_three_columns :
    let a : DenseMatrix Float := ⟨3, 3, #[7, 1, 7, 0.0, 0.1, -0.0, 1000000, 0.3, 1000000], rfl⟩
    a.isSquare = true ∧ a.isFinite = true ∧
      (∀ i < a.rows, (a.entry i 0 == a.entry i 2) = true) ∧
      (∀ k ≤ 2, ∀ work, a.Reaches .below k work → work.isFinite = true) ∧
      (∃ k ≤ 2, a.inverse = .error (.zeroPivot k)) ∧
      ∃ system, a.augment [1, 2, 3] = .ok system ∧
        (solve system .gaussJordan true).status ≠ .unique := by
  intro a
  have hfinite : a.isFinite = true := by decide +kernel
  have hequal : ∀ i < a.rows, (a.entry i 0 == a.entry i 2) = true := by decide +kernel
  have hcourse : ∀ k ≤ 2, (a.reducedTo .below k).isFinite = true := by decide +kernel
  have hreached : ∀ k ≤ 2, ∀ work, a.Reaches .below k work → work.isFinite = true := by
    intro k hk work hwork
    rw [hwork.eq_reducedTo (by omega : k ≤ 3)]
    exact hcourse k hk
  obtain ⟨hstuck, hsystems⟩ := stuck_of_equal_columns a rfl hfinite (by decide : 0 < 2)
    (by decide : 2 < 3) hequal .below hreached
  obtain ⟨system, hsystem, -, hne⟩ := hsystems [1, 2, 3] rfl (by decide +kernel)
  exact ⟨rfl, hfinite, hequal, hreached, hstuck, system, hsystem, hne .gaussJordan true⟩

end DenseSystem
