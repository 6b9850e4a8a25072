import Mathlib.Tactic
import DenseSystem.Proofs.Double.Finite
import DenseSystem.Proofs.Elimination.Shape
import DenseSystem.Proofs.Solver.Candidate

/-! # Finiteness from the end to the start

When a value that is not finite spoils what it enters, the matrices of an elimination with finite
pivots can be judged by the last one: if that is finite, all the earlier ones are, and so is what is
recorded on the way.
-/
namespace DenseSystem

variable {α : Type} [Scalar α]

def Step.numbers : Step α → List α
  | classified _ => []
  | determinant value => [value]
  | pivotSelected _ _ value => [value]
  | rowsSwapped _ _ => []
  | rowNormalized _ pivot => [pivot]
  | rowEliminated _ _ _ factor => [factor]
  | snapshot _ matrix => matrix.data.toList
  | inverse matrix => matrix.data.toList
  | backSubstituted _ value => [value]
  | solutionExtracted solution => solution
  | residual _ lhs rhs error => [lhs, rhs, error]
  | failed _ => []

def StepsFinite (steps : List (Step α)) : Prop :=
  ∀ step ∈ steps, ∀ v ∈ step.numbers, Scalar.isFinite v = true

theorem StepsFinite.append {first second : List (Step α)} (hf : StepsFinite first)
    (hs : StepsFinite second) : StepsFinite (first ++ second) := by
  intro step hstep
  rcases List.mem_append.mp hstep with h | h
  · exact hf step h
  · exact hs step h

theorem StepsFinite.cons {step : Step α} {steps : List (Step α)}
    (h : ∀ v ∈ step.numbers, Scalar.isFinite v = true) (hs : StepsFinite steps) :
    StepsFinite (step :: steps) :=
  List.forall_mem_cons.mpr ⟨h, hs⟩

namespace DenseMatrix

def EntriesFinite (m : DenseMatrix α) : Prop :=
  ∀ i < m.rows, ∀ j < m.cols, Scalar.isFinite (m.entry i j) = true

theorem mem_data_iff {m : DenseMatrix α} {v : α} :
    v ∈ m.data.toList ↔ ∃ i < m.rows, ∃ j < m.cols, m.entry i j = v := by
  constructor
  · intro hv
    obtain ⟨k, hk, rfl⟩ := List.mem_iff_getElem.mp hv
    rw [Array.length_toList, m.size_eq] at hk
    have hpos : 0 < m.cols := Nat.pos_of_mul_pos_left (Nat.zero_lt_of_lt hk)
    have hindex : k / m.cols * m.cols + k % m.cols = k := Nat.div_add_mod' k m.cols
    refine ⟨k / m.cols, (Nat.div_lt_iff_lt_mul hpos).mpr hk, k % m.cols, Nat.mod_lt k hpos, ?_⟩
    simp [entry, Nat.mod_lt k hpos, hindex, m.size_eq, hk, Array.getD]
  · rintro ⟨i, hi, j, hj, rfl⟩
    have hk := index_lt hi hj
    simp [entry, hj, Array.getD, m.size_eq, hk]

theorem forall_mem_data_iff {m : DenseMatrix α} :
    (∀ v ∈ m.data.toList, Scalar.isFinite v = true) ↔ m.EntriesFinite := by
  constructor
  · exact fun h i hi j hj => h _ (mem_data_iff.mpr ⟨i, hi, j, hj, rfl⟩)
  · intro h v hv
    obtain ⟨i, hi, j, hj, rfl⟩ := mem_data_iff.mp hv
    exact h i hi j hj

theorem isFinite_iff {m : DenseMatrix α} : m.isFinite = true ↔ m.EntriesFinite := by
  rw [← forall_mem_data_iff, isFinite, ← Array.all_toList, List.all_eq_true]

theorem sourceRow_sourceRow (work : DenseMatrix α) (k i : ℕ) :
    work.sourceRow k (work.sourceRow k i) = i := by
  unfold sourceRow
  split_ifs <;> omega

variable {work result : DenseMatrix α} {k : ℕ} {sweep : Sweep}

theorem stepsFinite_columnSteps (hk : k < work.rows) (hkc : k < work.cols)
    (hpivot : Scalar.isFinite (work.pivot k) = true) (hwork : work.EntriesFinite)
    (hreduced : (work.reduced k sweep).EntriesFinite) : StepsFinite (work.columnSteps k sweep) := by
  have hvalue : ∀ v ∈ [work.pivot k], Scalar.isFinite v = true := by
    simpa using hpivot
  refine StepsFinite.cons hvalue (StepsFinite.append ?_ (StepsFinite.cons hvalue
    (StepsFinite.append ?_ ?_)))
  · split_ifs
    · exact fun step hstep => absurd hstep List.not_mem_nil
    · intro step hstep v hv
      rw [List.mem_singleton.mp hstep] at hv
      exact absurd hv List.not_mem_nil
  · intro step hstep v hv
    obtain ⟨i, hi, rfl⟩ := List.mem_map.mp hstep
    obtain ⟨hrange, htarget⟩ := List.mem_filter.mp hi
    have hrow : i < work.rows := List.mem_range.mp hrange
    have hne : i ≠ k := by
      rintro rfl
      rw [isTarget_self] at htarget
      cases htarget
    rw [List.mem_singleton.mp hv, entry_normalized_of_ne hrow hkc hne]
    exact hwork _ (work.sourceRow_lt hk hrow) _ hkc
  · intro step hstep v hv
    rw [List.mem_singleton.mp hstep] at hv
    exact forall_mem_data_iff.mpr hreduced v hv

/-- The pivot of column `k` is a number, if an infinite one, and the factors of the rows that are
reached are finite. -/
structure Usable (work : DenseMatrix α) (k : ℕ) (sweep : Sweep) : Prop where
  pivot : Scalar.isNaN (work.pivot k) = false
  factor : ∀ i < work.rows, sweep.reaches k i = true →
    Scalar.isFinite (work.entry (work.sourceRow k i) k) = true

variable [Spoiling α]

/-- A column that is finite once another one to its left is reduced was finite before, and the other
one could be used. -/
theorem finite_of_reduced_column {r : ℕ} (hk : k < work.rows) (hkr : k < r) (hr : r < work.cols)
    (h : ∀ i < work.rows, Scalar.isFinite ((work.reduced k sweep).entry i r) = true) :
    (∀ i < work.rows, Scalar.isFinite (work.entry i r) = true) ∧ work.Usable k sweep := by
  have hpivotRow := h k hk
  rw [entry_reduced_pivotRow sweep hk hr hkr] at hpivotRow
  obtain ⟨hnumerator, hpivot⟩ := Spoiling.of_div hpivotRow
  have hother : ∀ i < work.rows, i ≠ k →
      Scalar.isFinite (work.entry (work.sourceRow k i) r) = true ∧
        (sweep.reaches k i = true →
          Scalar.isFinite (work.entry (work.sourceRow k i) k) = true) := by
    intro i hi hne
    have hentry := h i hi
    cases ht : (work.normalized k).isTarget k sweep i with
    | false =>
      rw [entry_reduced_of_not_isTarget sweep hi hr ht, entry_normalized_of_ne hi hr hne] at hentry
      refine ⟨hentry, fun hreach => Spoiling.of_isZero ?_⟩
      rw [isTarget_normalized sweep hi (by omega) hne, hreach] at ht
      simpa using ht
    | true =>
      rw [entry_reduced_target sweep hk hi hr hkr ht] at hentry
      obtain ⟨hleft, hproduct⟩ := Spoiling.of_sub hentry
      exact ⟨hleft, fun _ => (Spoiling.of_mul hproduct).1⟩
  refine ⟨fun i hi => ?_, hpivot, fun i hi hreach => (hother i hi (ne_of_reaches hreach)).2 hreach⟩
  rw [← work.sourceRow_sourceRow k i]
  by_cases hself : work.sourceRow k i = k
  · rw [hself, sourceRow_self]
    exact hnumerator
  · exact (hother _ (work.sourceRow_lt hk hi) hself).1

/-- With a finite pivot, and a column to its right, a finite matrix comes from a finite one. -/
theorem entriesFinite_of_reduced (hk : k < work.rows) (hright : k + 1 < work.cols)
    (hpivot : Scalar.isFinite (work.pivot k) = true)
    (h : (work.reduced k sweep).EntriesFinite) : work.EntriesFinite := by
  intro i hi j hj
  rcases lt_trichotomy j k with hjk | rfl | hkj
  · rw [← work.sourceRow_sourceRow k i,
      ← entry_reduced_left sweep (work.sourceRow_lt hk hi) hj hjk]
    exact h _ (work.sourceRow_lt hk hi) j hj
  · -- the factors were overwritten, but they entered the column to the right
    obtain ⟨-, huse⟩ := finite_of_reduced_column hk (Nat.lt_succ_self j) hright
      fun i hi => h i hi _ hright
    rw [← work.sourceRow_sourceRow j i]
    by_cases hself : work.sourceRow j i = j
    · rw [hself, sourceRow_self]
      exact hpivot
    · by_cases hreach : sweep.reaches j (work.sourceRow j i) = true
      · exact huse.factor _ (work.sourceRow_lt hk hi) hreach
      · have hkept := h _ (work.sourceRow_lt hk hi) j hj
        rwa [entry_reduced_of_not_isTarget sweep (work.sourceRow_lt hk hi) hj
          (by simp [isTarget, hreach]), entry_normalized_of_ne (work.sourceRow_lt hk hi) hj hself]
          at hkept
  · exact (finite_of_reduced_column hk hkj hj fun i hi => h i hi j hj).1 i hi

/-- If its pivots are finite and its last matrix is, an elimination has met nothing else. -/
theorem finite_of_reduceFrom {left : ℕ} (hrows : k + left ≤ work.rows)
    (hcols : work.rows < work.cols) (h : (work.reduceFrom sweep k left).outcome = .ok result)
    (hresult : result.EntriesFinite)
    (hpivots : ∀ j p v, .pivotSelected j p v ∈ (work.reduceFrom sweep k left).steps →
      Scalar.isFinite v = true) :
    work.EntriesFinite ∧ StepsFinite (work.reduceFrom sweep k left).steps := by
  induction left generalizing k work with
  | zero =>
    cases h
    exact ⟨hresult, fun step hstep => absurd hstep List.not_mem_nil⟩
  | succ left ih =>
    obtain ⟨hp, hrest⟩ := reduceFrom_succ_eq_ok h
    have hsteps : (work.reduceFrom sweep k (left + 1)).steps = work.columnSteps k sweep ++
        ((work.reduced k sweep).reduceFrom sweep (k + 1) left).steps := by
      rw [reduceFrom_succ, hp, if_neg Bool.false_ne_true]
    rw [hsteps] at hpivots ⊢
    have hk : k < work.rows := by omega
    have hrows' : k + 1 + left ≤ (work.reduced k sweep).rows := by
      rw [rows_reduced]
      omega
    obtain ⟨hreduced, hlater⟩ := ih hrows' hcols hrest
      fun j p v hv => hpivots j p v (List.mem_append_right _ hv)
    have hpivot : Scalar.isFinite (work.pivot k) = true :=
      hpivots k _ _ (List.mem_append_left _ List.mem_cons_self)
    have hwork := entriesFinite_of_reduced hk (by omega) hpivot hreduced
    exact ⟨hwork, (stepsFinite_columnSteps hk (by omega) hpivot hwork hreduced).append hlater⟩

end DenseMatrix

end DenseSystem
