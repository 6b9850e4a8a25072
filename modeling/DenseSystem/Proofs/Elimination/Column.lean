import Mathlib.Tactic
import DenseSystem.Elimination
import DenseSystem.Proofs.PivotSearch

/-! # The columns of an elimination

A column either offers no pivot, and then the elimination ends there, or it is reduced. All that is
proved of eliminations rests on the entries of a reduced column and on the induction over columns
given here; both hold in any arithmetic.
-/
namespace DenseSystem.DenseMatrix

variable {α : Type} [Scalar α]

def pivot (work : DenseMatrix α) (k : ℕ) : α := work.entry (work.pivotRow k k) k

/-- The row that stands in row `i` once the pivot row of column `k` is brought up. -/
def sourceRow (work : DenseMatrix α) (k i : ℕ) : ℕ :=
  if i = k then work.pivotRow k k else if i = work.pivotRow k k then k else i

def normalized (work : DenseMatrix α) (k : ℕ) : DenseMatrix α :=
  (work.exchangeRows k (work.pivotRow k k)).normalizeRow k (work.pivot k)

/-- The matrix after column `k`, given that its pivot will do. -/
def reduced (work : DenseMatrix α) (k : ℕ) (sweep : Sweep) : DenseMatrix α :=
  (work.normalized k).clearColumn k sweep

/-- The record of a column whose pivot will do. -/
def columnSteps (work : DenseMatrix α) (k : ℕ) (sweep : Sweep) : List (Step α) :=
  .pivotSelected k (work.pivotRow k k) (work.pivot k) ::
    ((if work.pivotRow k k = k then [] else [.rowsSwapped k (work.pivotRow k k)]) ++
      .rowNormalized k (work.pivot k) ::
        ((work.normalized k).eliminations k sweep ++
          [.snapshot (.afterColumn k) (work.reduced k sweep)]))

@[simp] theorem rows_normalized (work : DenseMatrix α) (k : ℕ) :
    (work.normalized k).rows = work.rows := rfl

@[simp] theorem cols_normalized (work : DenseMatrix α) (k : ℕ) :
    (work.normalized k).cols = work.cols := rfl

@[simp] theorem rows_reduced (work : DenseMatrix α) (k : ℕ) (sweep : Sweep) :
    (work.reduced k sweep).rows = work.rows := rfl

@[simp] theorem cols_reduced (work : DenseMatrix α) (k : ℕ) (sweep : Sweep) :
    (work.reduced k sweep).cols = work.cols := rfl

theorem exchangeRows_self {β : Type} [Zero β] (m : DenseMatrix β) (k : ℕ) :
    m.exchangeRows k k = m := by
  apply ext_entry
  · rfl
  · rfl
  · intro i hi j hj
    rw [entry_exchangeRows m k k hi hj]
    split_ifs with h
    · rw [h]
    · rfl

theorem exchangeRows_comm {β : Type} [Zero β] (m : DenseMatrix β) (first second : ℕ) :
    m.exchangeRows first second = m.exchangeRows second first := by
  unfold exchangeRows
  congr 1
  funext i j
  congr 1
  split_ifs <;> omega

theorem exchangeRows_exchangeRows {β : Type} [Zero β] {m : DenseMatrix β} {i j : ℕ}
    (hi : i < m.rows) (hj : j < m.rows) : (m.exchangeRows i j).exchangeRows i j = m := by
  refine ext_entry rfl rfl fun row (hrow : row < m.rows) col (hcol : col < m.cols) => ?_
  have hswapped : (if row = i then j else if row = j then i else row) < m.rows := by
    split_ifs <;> assumption
  rw [entry_exchangeRows _ i j (by exact hrow) (by exact hcol),
    entry_exchangeRows m i j hswapped hcol]
  congr 1
  split_ifs <;> omega

/-! ## What one column does -/

theorem reduceColumn_eq (work : DenseMatrix α) (k : ℕ) (sweep : Sweep) :
    work.reduceColumn k sweep =
      if isNearZero (work.pivot k) then
        ⟨[.pivotSelected k (work.pivotRow k k) (work.pivot k)], .error (.zeroPivot k)⟩
      else ⟨work.columnSteps k sweep, .ok (work.reduced k sweep)⟩ := by
  have hbring : (if work.pivotRow k k = k then work else work.exchangeRows k (work.pivotRow k k)) =
      work.exchangeRows k (work.pivotRow k k) := by
    split_ifs with h
    · rw [h, exchangeRows_self]
    · rfl
  unfold reduceColumn
  simp only [hbring]
  change Derivation.record (.pivotSelected k (work.pivotRow k k) (work.pivot k)) >>=
    (fun _ => if isNearZero (work.pivot k) then _ else _) = _
  cases isNearZero (work.pivot k) <;> rfl

theorem reduceFrom_succ (work : DenseMatrix α) (sweep : Sweep) (k left : ℕ) :
    work.reduceFrom sweep k (left + 1) =
      if isNearZero (work.pivot k) then
        ⟨[.pivotSelected k (work.pivotRow k k) (work.pivot k)], .error (.zeroPivot k)⟩
      else
        ⟨work.columnSteps k sweep ++ ((work.reduced k sweep).reduceFrom sweep (k + 1) left).steps,
          ((work.reduced k sweep).reduceFrom sweep (k + 1) left).outcome⟩ := by
  change work.reduceColumn k sweep >>= (fun reduced => reduced.reduceFrom sweep (k + 1) left) = _
  rw [reduceColumn_eq]
  split_ifs <;> rfl

theorem reduceFrom_succ_eq_ok {work result : DenseMatrix α} {sweep : Sweep} {k left : ℕ}
    (h : (work.reduceFrom sweep k (left + 1)).outcome = .ok result) :
    isNearZero (work.pivot k) = false ∧
      ((work.reduced k sweep).reduceFrom sweep (k + 1) left).outcome = .ok result := by
  rw [reduceFrom_succ] at h
  split_ifs at h with hp
  exact ⟨by simpa using hp, h⟩

/-- What each reduced column preserves holds at the end of an elimination that succeeds. -/
theorem reduceFrom_invariant {sweep : Sweep} {P : ℕ → DenseMatrix α → Prop}
    (hstep : ∀ k work, P k work → k < work.rows → isNearZero (work.pivot k) = false →
      P (k + 1) (work.reduced k sweep))
    {left k : ℕ} {work result : DenseMatrix α} (hrows : k + left ≤ work.rows)
    (h : (work.reduceFrom sweep k left).outcome = .ok result) (hinv : P k work) :
    P (k + left) result := by
  induction left generalizing k work with
  | zero =>
    cases h
    exact hinv
  | succ left ih =>
    obtain ⟨hp, hrest⟩ := reduceFrom_succ_eq_ok h
    have hrows' : k + 1 + left ≤ (work.reduced k sweep).rows := by
      rw [rows_reduced]
      omega
    have hnext := ih hrows' hrest (hstep k work hinv (by omega) hp)
    rwa [Nat.add_right_comm] at hnext

/-- An elimination that fails does so in a column whose pivot is near zero, and what each reduced
column preserves holds there. -/
theorem reduceFrom_failure {sweep : Sweep} {P : ℕ → DenseMatrix α → Prop}
    (hstep : ∀ k work, P k work → k < work.rows → isNearZero (work.pivot k) = false →
      P (k + 1) (work.reduced k sweep))
    {left k : ℕ} {work : DenseMatrix α} {e : Error} (hrows : k + left ≤ work.rows)
    (h : (work.reduceFrom sweep k left).outcome = .error e) (hinv : P k work) :
    ∃ j stuck, k ≤ j ∧ j < k + left ∧ e = .zeroPivot j ∧ P j stuck ∧
      stuck.rows = work.rows ∧ isNearZero (stuck.pivot j) = true ∧
      .pivotSelected j (stuck.pivotRow j j) (stuck.pivot j) ∈
        (work.reduceFrom sweep k left).steps := by
  induction left generalizing k work with
  | zero => cases h
  | succ left ih =>
    rw [reduceFrom_succ] at h ⊢
    split_ifs at h ⊢ with hp
    · cases h
      exact ⟨k, work, le_rfl, by omega, rfl, hinv, rfl, hp, by simp⟩
    · have hrows' : k + 1 + left ≤ (work.reduced k sweep).rows := by
        rw [rows_reduced]
        omega
      obtain ⟨j, stuck, hj, hlt, he, hs, hr, hz, hmem⟩ :=
        ih hrows' h (hstep k work hinv (by omega) (by simpa using hp))
      exact ⟨j, stuck, by omega, by omega, he, hs, hr, hz, List.mem_append_right _ hmem⟩

theorem rows_of_reduceFrom {work result : DenseMatrix α} {sweep : Sweep} {k left : ℕ}
    (hrows : k + left ≤ work.rows) (h : (work.reduceFrom sweep k left).outcome = .ok result) :
    result.rows = work.rows ∧ result.cols = work.cols :=
  reduceFrom_invariant (P := fun _ m => m.rows = work.rows ∧ m.cols = work.cols)
    (fun _ _ hm _ _ => hm) hrows h ⟨rfl, rfl⟩

def reducedTo (m : DenseMatrix α) (sweep : Sweep) : ℕ → DenseMatrix α
  | 0 => m
  | k + 1 => (m.reducedTo sweep k).reduced k sweep

theorem shape_reducedTo (m : DenseMatrix α) (sweep : Sweep) (k : ℕ) :
    (m.reducedTo sweep k).rows = m.rows ∧ (m.reducedTo sweep k).cols = m.cols := by
  induction k with
  | zero => exact ⟨rfl, rfl⟩
  | succ k ih => exact ih

theorem eq_reducedTo_of_reduce {m result : DenseMatrix α} {sweep : Sweep}
    (h : (m.reduce sweep).outcome = .ok result) :
    result = m.reducedTo sweep m.rows ∧
      ∀ k < m.rows, isNearZero ((m.reducedTo sweep k).pivot k) = false := by
  have hfrom (k left : ℕ)
      (h : ((m.reducedTo sweep k).reduceFrom sweep k left).outcome = .ok result) :
      result = m.reducedTo sweep (k + left) ∧
        ∀ j, k ≤ j → j < k + left → isNearZero ((m.reducedTo sweep j).pivot j) = false := by
    induction left generalizing k with
    | zero =>
      cases h
      exact ⟨rfl, fun j hj hlt => by omega⟩
    | succ left ih =>
      obtain ⟨hp, hrest⟩ := reduceFrom_succ_eq_ok h
      obtain ⟨hresult, hpivots⟩ := ih (k + 1) hrest
      rw [show k + 1 + left = k + (left + 1) by omega] at hresult hpivots
      refine ⟨hresult, fun j hj hlt => ?_⟩
      rcases hj.eq_or_lt with rfl | hkj
      · exact hp
      · exact hpivots j hkj hlt
  obtain ⟨hresult, hpivots⟩ := hfrom 0 m.rows h
  rw [Nat.zero_add] at hresult hpivots
  exact ⟨hresult, fun k hk => hpivots k (Nat.zero_le k) hk⟩

/-! ## The entries of a reduced column -/

theorem sourceRow_lt (work : DenseMatrix α) {k i : ℕ} (hk : k < work.rows)
    (hi : i < work.rows) : work.sourceRow k i < work.rows := by
  unfold sourceRow
  split_ifs
  · exact work.pivotRow_lt k hk
  · exact hk
  · exact hi

theorem le_sourceRow (work : DenseMatrix α) {k i : ℕ} (hi : k ≤ i) :
    k ≤ work.sourceRow k i := by
  unfold sourceRow
  split_ifs
  · exact work.le_pivotRow k k
  · exact le_rfl
  · exact hi

/-- Rows that already have a pivot stay where they are. -/
theorem sourceRow_of_lt (work : DenseMatrix α) {k i : ℕ} (hi : i < k) :
    work.sourceRow k i = i := by
  have := work.le_pivotRow k k
  unfold sourceRow
  rw [if_neg (by omega), if_neg (by omega)]

@[simp] theorem sourceRow_self (work : DenseMatrix α) (k : ℕ) :
    work.sourceRow k k = work.pivotRow k k := if_pos rfl

variable {work : DenseMatrix α} {k i j : ℕ}

theorem entry_normalized_of_ne (hi : i < work.rows) (hj : j < work.cols) (hne : i ≠ k) :
    (work.normalized k).entry i j = work.entry (work.sourceRow k i) j := by
  have hi' : i < (work.exchangeRows k (work.pivotRow k k)).rows := hi
  have hj' : j < (work.exchangeRows k (work.pivotRow k k)).cols := hj
  rw [normalized, entry_normalizeRow _ _ _ hi' hj', if_pos (Or.inl hne),
    entry_exchangeRows _ _ _ hi hj]
  rfl

theorem entry_normalized_left (hi : i < work.rows) (hj : j < work.cols) (hjk : j < k) :
    (work.normalized k).entry i j = work.entry (work.sourceRow k i) j := by
  have hi' : i < (work.exchangeRows k (work.pivotRow k k)).rows := hi
  have hj' : j < (work.exchangeRows k (work.pivotRow k k)).cols := hj
  rw [normalized, entry_normalizeRow _ _ _ hi' hj', if_pos (Or.inr hjk),
    entry_exchangeRows _ _ _ hi hj]
  rfl

theorem entry_normalized_self (hk : k < work.rows) (hkc : k < work.cols) :
    (work.normalized k).entry k k = 1 := by
  have hk' : k < (work.exchangeRows k (work.pivotRow k k)).rows := hk
  have hkc' : k < (work.exchangeRows k (work.pivotRow k k)).cols := hkc
  rw [normalized, entry_normalizeRow _ _ _ hk' hkc', if_neg (by omega), if_pos rfl]

theorem entry_normalized_right (hk : k < work.rows) (hj : j < work.cols) (hkj : k < j) :
    (work.normalized k).entry k j = work.entry (work.pivotRow k k) j / work.pivot k := by
  have hk' : k < (work.exchangeRows k (work.pivotRow k k)).rows := hk
  have hj' : j < (work.exchangeRows k (work.pivotRow k k)).cols := hj
  rw [normalized, entry_normalizeRow _ _ _ hk' hj', if_neg (by omega), if_neg (by omega),
    entry_exchangeRows _ _ _ hk hj, if_pos rfl]

theorem reaches_self (sweep : Sweep) (k : ℕ) : sweep.reaches k k = false := by
  cases sweep <;> simp [Sweep.reaches]

theorem ne_of_reaches {sweep : Sweep} (h : sweep.reaches k i = true) : i ≠ k := by
  rintro rfl
  rw [reaches_self] at h
  cases h

theorem reaches_of_lt (sweep : Sweep) (h : k < i) : sweep.reaches k i = true := by
  cases sweep
  · exact decide_eq_true h
  · exact decide_eq_true (by omega)

theorem isTarget_self (m : DenseMatrix α) (k : ℕ) (sweep : Sweep) :
    m.isTarget k sweep k = false := by
  simp [isTarget, reaches_self]

variable (sweep : Sweep)

/-- Columns that are done are only rearranged. -/
theorem entry_reduced_left (hi : i < work.rows) (hj : j < work.cols) (hjk : j < k) :
    (work.reduced k sweep).entry i j = work.entry (work.sourceRow k i) j := by
  have hi' : i < (work.normalized k).rows := hi
  have hj' : j < (work.normalized k).cols := hj
  rw [reduced, entry_clearColumn _ _ _ hi' hj', if_pos (by simp [hjk]),
    entry_normalized_left hi hj hjk]

/-- Rows that the sweep does not reach, and rows with a zero in the column, stay as they are. -/
theorem entry_reduced_of_not_isTarget (hi : i < work.rows) (hj : j < work.cols)
    (ht : (work.normalized k).isTarget k sweep i = false) :
    (work.reduced k sweep).entry i j = (work.normalized k).entry i j := by
  have hi' : i < (work.normalized k).rows := hi
  have hj' : j < (work.normalized k).cols := hj
  rw [reduced, entry_clearColumn _ _ _ hi' hj', if_pos (by simp [ht])]

theorem entry_reduced_self (hk : k < work.rows) (hkc : k < work.cols) :
    (work.reduced k sweep).entry k k = 1 := by
  rw [entry_reduced_of_not_isTarget sweep hk hkc (isTarget_self _ k sweep),
    entry_normalized_self hk hkc]

theorem entry_reduced_pivotRow (hk : k < work.rows) (hj : j < work.cols) (hkj : k < j) :
    (work.reduced k sweep).entry k j = work.entry (work.pivotRow k k) j / work.pivot k := by
  rw [entry_reduced_of_not_isTarget sweep hk hj (isTarget_self _ k sweep),
    entry_normalized_right hk hj hkj]

/-- The factor of a target row is its entry in the pivot column. -/
theorem isTarget_normalized (hi : i < work.rows) (hkc : k < work.cols) (hne : i ≠ k) :
    (work.normalized k).isTarget k sweep i =
      (sweep.reaches k i && !Scalar.isZero (work.entry (work.sourceRow k i) k)) := by
  rw [isTarget, entry_normalized_of_ne hi hkc hne]

theorem entry_reduced_column (hi : i < work.rows) (hkc : k < work.cols)
    (ht : (work.normalized k).isTarget k sweep i = true) :
    (work.reduced k sweep).entry i k = 0 := by
  have hi' : i < (work.normalized k).rows := hi
  have hkc' : k < (work.normalized k).cols := hkc
  rw [reduced, entry_clearColumn _ _ _ hi' hkc', if_neg (by simp [ht]), if_pos rfl]

theorem entry_reduced_target (hk : k < work.rows) (hi : i < work.rows) (hj : j < work.cols)
    (hkj : k < j) (ht : (work.normalized k).isTarget k sweep i = true) :
    (work.reduced k sweep).entry i j =
      work.entry (work.sourceRow k i) j - work.entry (work.sourceRow k i) k *
        (work.entry (work.pivotRow k k) j / work.pivot k) := by
  have hne : i ≠ k := by
    rintro rfl
    rw [isTarget_self] at ht
    cases ht
  have hi' : i < (work.normalized k).rows := hi
  have hj' : j < (work.normalized k).cols := hj
  rw [reduced, entry_clearColumn _ _ _ hi' hj', if_neg (by simp [ht]; omega), if_neg (by omega),
    entry_normalized_of_ne hi hj hne, entry_normalized_of_ne hi (by omega) hne,
    entry_normalized_right hk hj hkj]

end DenseSystem.DenseMatrix
