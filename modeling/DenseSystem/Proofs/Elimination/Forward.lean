import Mathlib.Tactic
import DenseSystem.Proofs.Agreement
import DenseSystem.Proofs.Elimination.Column

/-! # The forward part of an elimination

The search for a pivot, its division and what it does to the rows below it depend on the rows that
have no pivot yet, and there on the columns that are to get one. Neither further columns nor the rows
above have an influence, so eliminations of the same coefficients go forward alike, whether they
clear the rows above as well or not, and fail in the same column or not at all.
-/
namespace DenseSystem

section Steps

variable {α : Type}

/-- The steps that choose a pivot, bring it up, divide its row and clear a row below it. -/
def Step.isForward : Step α → Bool
  | pivotSelected .. | rowsSwapped .. | rowNormalized .. => true
  | rowEliminated target pivotRow _ _ => pivotRow < target
  | _ => false

def forwardSteps (steps : List (Step α)) : List (Step α) := steps.filter Step.isForward

theorem forwardSteps_append (first second : List (Step α)) :
    forwardSteps (first ++ second) = forwardSteps first ++ forwardSteps second :=
  List.filter_append _ _

end Steps

namespace DenseMatrix

variable {α : Type} [Scalar α] {a b work : DenseMatrix α} {k width i j : ℕ}

section Lockstep

theorem AgreeFrom.pivot_eq (h : AgreeFrom k width a b) (hk : k < a.rows) (hkw : k < width) :
    a.pivot k = b.pivot k := by
  rw [pivot, pivot, ← h.pivotRow_eq hkw hk]
  exact h.entry_eq _ (a.le_pivotRow k k) (a.pivotRow_lt k hk) k hkw

theorem AgreeFrom.sourceRow_eq (h : AgreeFrom k width a b) (hk : k < a.rows) (hkw : k < width)
    (i : ℕ) : a.sourceRow k i = b.sourceRow k i := by
  rw [sourceRow, sourceRow, ← h.pivotRow_eq hkw hk]

/-- The rows that take part in a column are brought up from the same rows. -/
theorem AgreeFrom.entry_sourceRow_eq (h : AgreeFrom k width a b) (hk : k < a.rows)
    (hkw : k < width) (hki : k ≤ i) (hi : i < a.rows) (hj : j < width) :
    a.entry (a.sourceRow k i) j = b.entry (b.sourceRow k i) j := by
  rw [← h.sourceRow_eq hk hkw]
  exact h.entry_eq _ (a.le_sourceRow hki) (a.sourceRow_lt hk hi) j hj

/-- Every sweep treats the rows below the pivot alike. -/
theorem entry_reduced_below (sweep : Sweep) (hk : k < work.rows) (hkc : k < work.cols)
    (hki : k < i) (hi : i < work.rows) (hj : j < work.cols) :
    (work.reduced k sweep).entry i j =
      if Scalar.isZero (work.entry (work.sourceRow k i) k) ∨ j < k then
        work.entry (work.sourceRow k i) j
      else if j = k then 0
      else work.entry (work.sourceRow k i) j - work.entry (work.sourceRow k i) k *
        (work.entry (work.pivotRow k k) j / work.pivot k) := by
  have ht := isTarget_normalized sweep hi hkc hki.ne'
  rw [reaches_of_lt sweep hki, Bool.true_and] at ht
  rcases lt_trichotomy j k with hjk | rfl | hkj
  · rw [entry_reduced_left sweep hi hj hjk, if_pos (Or.inr hjk)]
  · by_cases hz : Scalar.isZero (work.entry (work.sourceRow j i) j) = true
    · rw [hz] at ht
      rw [entry_reduced_of_not_isTarget sweep hi hj ht, entry_normalized_of_ne hi hj hki.ne',
        if_pos (Or.inl hz)]
    · rw [Bool.not_eq_true] at hz
      rw [hz] at ht
      rw [entry_reduced_column sweep hi hj ht, if_neg (by simp [hz]), if_pos rfl]
  · by_cases hz : Scalar.isZero (work.entry (work.sourceRow k i) k) = true
    · rw [hz] at ht
      rw [entry_reduced_of_not_isTarget sweep hi hj ht, entry_normalized_of_ne hi hj hki.ne',
        if_pos (Or.inl hz)]
    · rw [Bool.not_eq_true] at hz
      rw [hz] at ht
      rw [entry_reduced_target sweep hk hi hj hkj ht, if_neg (by simp [hz]; omega),
        if_neg (by omega)]

theorem AgreeFrom.reduced (h : AgreeFrom k width a b) (hk : k < a.rows) (hkw : k < width)
    (sweep sweep' : Sweep) :
    AgreeFrom (k + 1) width (a.reduced k sweep) (b.reduced k sweep') := by
  refine ⟨h.rows_eq, h.left_le, h.right_le, fun i hki hi j hj => ?_⟩
  rw [rows_reduced] at hi
  have hleft := h.left_le
  have hright := h.right_le
  have hrows := h.rows_eq
  have hpivotRow : a.entry (a.pivotRow k k) j = b.entry (b.pivotRow k k) j := by
    rw [← h.pivotRow_eq hkw hk]
    exact h.entry_eq _ (a.le_pivotRow k k) (a.pivotRow_lt k hk) j hj
  rw [entry_reduced_below sweep hk (by omega) hki hi (by omega),
    entry_reduced_below sweep' (by omega) (by omega) hki (by omega) (by omega),
    h.entry_sourceRow_eq hk hkw (by omega) hi hkw, h.entry_sourceRow_eq hk hkw (by omega) hi hj,
    hpivotRow, h.pivot_eq hk hkw]

end Lockstep

/-! ## The forward steps of one column -/

/-- The record of clearing a column, as far as it is about the rows below the pivot. -/
theorem forwardSteps_eliminations (m : DenseMatrix α) (k : ℕ) (sweep : Sweep) :
    forwardSteps (m.eliminations k sweep) =
      ((List.range m.rows).filter fun i => decide (k < i) && !Scalar.isZero (m.entry i k)).map
        fun i => .rowEliminated i k k (m.entry i k) := by
  rw [forwardSteps, eliminations, List.filter_map, List.filter_filter]
  congr 1
  apply List.filter_congr
  intro i _
  by_cases hki : k < i
  · simp [Step.isForward, isTarget, hki, reaches_of_lt sweep hki]
  · simp [Step.isForward, hki]

theorem forwardSteps_columnSteps (work : DenseMatrix α) (k : ℕ) (sweep : Sweep) :
    forwardSteps (work.columnSteps k sweep) =
      .pivotSelected k (work.pivotRow k k) (work.pivot k) ::
        ((if work.pivotRow k k = k then [] else [.rowsSwapped k (work.pivotRow k k)]) ++
          .rowNormalized k (work.pivot k) ::
            forwardSteps ((work.normalized k).eliminations k sweep)) := by
  rw [columnSteps, forwardSteps, List.filter_cons_of_pos rfl, List.filter_append,
    List.filter_cons_of_pos rfl, List.filter_append]
  have hcopy : List.filter Step.isForward
      [(.snapshot (.afterColumn k) (work.reduced k sweep) : Step α)] = [] := rfl
  rw [hcopy, List.append_nil]
  split_ifs <;> rfl

/-- Agreeing matrices are brought forward by one column alike. -/
theorem AgreeFrom.forwardSteps_columnSteps_eq (h : AgreeFrom k width a b) (hk : k < a.rows)
    (hkw : k < width) (sweep sweep' : Sweep) :
    forwardSteps (a.columnSteps k sweep) = forwardSteps (b.columnSteps k sweep') := by
  have hleft := h.left_le
  have hright := h.right_le
  have hrows := h.rows_eq
  have hbelow : ∀ i < a.rows, k < i →
      (a.normalized k).entry i k = (b.normalized k).entry i k := by
    intro i hi hki
    rw [entry_normalized_of_ne hi (by omega) hki.ne',
      entry_normalized_of_ne (by omega) (by omega) hki.ne',
      h.entry_sourceRow_eq hk hkw hki.le hi hkw]
  have helim : forwardSteps ((a.normalized k).eliminations k sweep) =
      forwardSteps ((b.normalized k).eliminations k sweep') := by
    rw [forwardSteps_eliminations, forwardSteps_eliminations, rows_normalized, rows_normalized,
      ← hrows]
    have htargets : (List.range a.rows).filter
          (fun i => decide (k < i) && !Scalar.isZero ((a.normalized k).entry i k)) =
        (List.range a.rows).filter
          (fun i => decide (k < i) && !Scalar.isZero ((b.normalized k).entry i k)) := by
      apply List.filter_congr
      intro i hi
      by_cases hki : k < i
      · rw [hbelow i (List.mem_range.mp hi) hki]
      · simp [hki]
    rw [htargets]
    apply List.map_congr_left
    intro i hi
    obtain ⟨hrange, htarget⟩ := List.mem_filter.mp hi
    rw [hbelow i (List.mem_range.mp hrange) (by simp_all)]
  rw [forwardSteps_columnSteps, forwardSteps_columnSteps, h.pivotRow_eq hkw hk, h.pivot_eq hk hkw,
    helim]

/-! ## Whole eliminations -/

/-- Eliminations of agreeing matrices go forward alike, and both succeed or fail in the same
column. -/
theorem AgreeFrom.reduceFrom {left : ℕ} (h : AgreeFrom k width a b) (hwidth : k + left ≤ width)
    (hrows : k + left ≤ a.rows) (sweep sweep' : Sweep) :
    forwardSteps (a.reduceFrom sweep k left).steps =
        forwardSteps (b.reduceFrom sweep' k left).steps ∧
      ∀ e, (a.reduceFrom sweep k left).outcome = .error e ↔
        (b.reduceFrom sweep' k left).outcome = .error e := by
  induction left generalizing k a b with
  | zero => exact ⟨rfl, fun e => iff_of_false (by rintro ⟨⟩) (by rintro ⟨⟩)⟩
  | succ left ih =>
    have hk : k < a.rows := by omega
    have hkw : k < width := by omega
    rw [reduceFrom_succ, reduceFrom_succ, ← h.pivot_eq hk hkw, ← h.pivotRow_eq hkw hk]
    split_ifs
    · exact ⟨rfl, fun _ => Iff.rfl⟩
    · obtain ⟨hsteps, hfails⟩ :=
        ih (h.reduced hk hkw sweep sweep') (by omega) (by rw [rows_reduced]; omega)
      refine ⟨?_, hfails⟩
      rw [forwardSteps_append, forwardSteps_append, hsteps,
        h.forwardSteps_columnSteps_eq hk hkw sweep sweep']

end DenseMatrix

end DenseSystem
