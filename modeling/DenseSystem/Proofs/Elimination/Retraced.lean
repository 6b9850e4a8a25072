import Mathlib.Tactic
import DenseSystem.Proofs.Elimination.Column
import DenseSystem.Step.Replay

/-! # Eliminations retraced

The rows that a column is cleared from are changed one after the other when the record is replayed,
and all at once by the elimination. Both give the same matrix, because a row that is changed depends
on itself and on the pivot row only. So a replay passes through every copy of the working matrix.
-/
namespace DenseSystem

variable {α : Type} [Scalar α]

namespace Step

open DenseMatrix

theorem replay_rowsSwapped (work : DenseMatrix α) (first second : ℕ) :
    (rowsSwapped first second).replay work = work.exchangeRows first second := by
  refine ext_entry rfl rfl fun i (hi : i < work.rows) j (hj : j < work.cols) => ?_
  rw [replay, entry_ofFn _ hi hj, entry_exchangeRows _ _ _ hi hj]
  split_ifs <;> rfl

/-- Left of a column nothing changes, as in all other rows. -/
theorem ite_from_column {β : Type} (i row j column : ℕ) (unchanged leading other : β) :
    (if i = row ∧ j = column then leading else if i = row ∧ column < j then other else unchanged) =
      if i ≠ row ∨ j < column then unchanged else if j = column then leading else other := by
  split_ifs <;> first | rfl | omega

theorem replay_rowNormalized (work : DenseMatrix α) (row : ℕ) (pivot : α) :
    (rowNormalized row pivot).replay work = work.normalizeRow row pivot := by
  refine ext_entry rfl rfl fun i (hi : i < work.rows) j (hj : j < work.cols) => ?_
  rw [replay, entry_ofFn _ hi hj, entry_normalizeRow _ _ _ hi hj, ite_from_column]

theorem replay_rowEliminated (work : DenseMatrix α) (target pivotRow column : ℕ) (factor : α) :
    (rowEliminated target pivotRow column factor).replay work =
      work.eliminateRow target pivotRow column factor := by
  refine ext_entry rfl rfl fun i (hi : i < work.rows) j (hj : j < work.cols) => ?_
  rw [replay, entry_ofFn _ hi hj, entry_eliminateRow _ _ _ _ _ hi hj, ite_from_column]

end Step

/-- Every copy of the matrix after a column is what the steps before it make of `work`. -/
def Retraces : DenseMatrix α → List (Step α) → Prop
  | _, [] => True
  | work, step :: rest =>
    (∀ k copy, step = .snapshot (.afterColumn k) copy → copy = work) ∧
      Retraces (step.replay work) rest

theorem Retraces.append {work : DenseMatrix α} {first second : List (Step α)}
    (hf : Retraces work first) (hs : Retraces (replay work first) second) :
    Retraces work (first ++ second) := by
  induction first generalizing work with
  | nil => exact hs
  | cons step rest ih => exact ⟨hf.1, ih hf.2 hs⟩

theorem Retraces.replay_eq {work copy : DenseMatrix α} {before after : List (Step α)} {k : ℕ}
    (h : Retraces work (before ++ .snapshot (.afterColumn k) copy :: after)) :
    replay work before = copy := by
  induction before generalizing work with
  | nil => exact (h.1 k copy rfl).symm
  | cons step rest ih => exact ih h.2

namespace DenseMatrix

variable {m work : DenseMatrix α} {k t : ℕ} {done targets : List ℕ} {sweep : Sweep}

/-- Some rows lessened by their multiples of row `k`, with an exact zero in column `k`. -/
def clearRows (m : DenseMatrix α) (k : ℕ) (done : List ℕ) : DenseMatrix α :=
  ofFn m.rows m.cols fun i j =>
    if i ∉ done ∨ j < k then m.entry i j
    else if j = k then 0
    else m.entry i j - m.entry i k * m.entry k j

theorem entry_clearRows {i j : ℕ} (hi : i < m.rows) (hj : j < m.cols) :
    (m.clearRows k done).entry i j =
      if i ∉ done ∨ j < k then m.entry i j
      else if j = k then 0
      else m.entry i j - m.entry i k * m.entry k j :=
  entry_ofFn _ hi hj

theorem entry_clearRows_of_notMem {i j : ℕ} (hi : i < m.rows) (hj : j < m.cols) (h : i ∉ done) :
    (m.clearRows k done).entry i j = m.entry i j := by
  rw [entry_clearRows hi hj, if_pos (Or.inl h)]

theorem clearRows_nil (m : DenseMatrix α) (k : ℕ) : m.clearRows k [] = m :=
  ext_entry rfl rfl fun _ hi _ hj => entry_clearRows_of_notMem hi hj List.not_mem_nil

/-- One more row is cleared with the factor and the pivot row of the start. -/
theorem eliminateRow_clearRows (hk : k < m.rows) (hkd : k ∉ done) (ht : t ∉ done) :
    (m.clearRows k done).eliminateRow t k k (m.entry t k) = m.clearRows k (done ++ [t]) := by
  refine ext_entry rfl rfl ?_
  intro i (hi : i < m.rows) j (hj : j < m.cols)
  have hi' : i < (m.clearRows k done).rows := hi
  have hj' : j < (m.clearRows k done).cols := hj
  rw [entry_eliminateRow _ _ _ _ _ hi' hj', entry_clearRows_of_notMem hk hj hkd,
    entry_clearRows hi hj, entry_clearRows hi hj]
  by_cases hit : i = t
  · subst hit
    simp [ht]
  · simp [hit]

theorem replay_eliminated (hk : k < m.rows) (hkd : k ∉ done ++ targets)
    (hnodup : (done ++ targets).Nodup) :
    replay (m.clearRows k done) (targets.map fun i => .rowEliminated i k k (m.entry i k)) =
      m.clearRows k (done ++ targets) := by
  induction targets generalizing done with
  | nil => simp [replay]
  | cons t rest ih =>
    rw [List.append_cons] at hkd hnodup ⊢
    have ht : t ∉ done := by
      have hleft := (List.nodup_append.mp hnodup).1
      exact fun hmem => (List.nodup_append.mp hleft).2.2 t hmem t List.mem_cons_self rfl
    have hkd' : k ∉ done := by
      intro hmem
      exact hkd (List.mem_append_left _ (List.mem_append_left _ hmem))
    rw [← ih hkd hnodup, ← eliminateRow_clearRows hk hkd' ht, ← Step.replay_rowEliminated]
    rfl

theorem clearRows_targets (m : DenseMatrix α) (k : ℕ) (sweep : Sweep) :
    m.clearRows k ((List.range m.rows).filter (m.isTarget k sweep)) = m.clearColumn k sweep := by
  refine ext_entry rfl rfl ?_
  intro i (hi : i < m.rows) j (hj : j < m.cols)
  rw [entry_clearRows hi hj, entry_clearColumn m k sweep hi hj]
  refine if_congr ?_ rfl rfl
  simp [hi]

theorem replay_eliminations (hk : k < m.rows) :
    replay m (m.eliminations k sweep) = m.clearColumn k sweep := by
  have hnodup : ((List.range m.rows).filter (m.isTarget k sweep)).Nodup :=
    List.nodup_range.filter _
  have hreplay : replay (m.clearRows k []) (m.eliminations k sweep) =
      m.clearRows k ((List.range m.rows).filter (m.isTarget k sweep)) :=
    replay_eliminated hk (by simp [isTarget_self]) hnodup
  rwa [clearRows_nil, clearRows_targets] at hreplay

/-! ## Columns and whole eliminations -/

/-- The record of a column up to its copy of the matrix. -/
def operations (work : DenseMatrix α) (k : ℕ) (sweep : Sweep) : List (Step α) :=
  .pivotSelected k (work.pivotRow k k) (work.pivot k) ::
    ((if work.pivotRow k k = k then [] else [.rowsSwapped k (work.pivotRow k k)]) ++
      .rowNormalized k (work.pivot k) :: (work.normalized k).eliminations k sweep)

theorem columnSteps_eq (work : DenseMatrix α) (k : ℕ) (sweep : Sweep) :
    work.columnSteps k sweep =
      work.operations k sweep ++ [.snapshot (.afterColumn k) (work.reduced k sweep)] := by
  simp [columnSteps, operations]

theorem replay_operations (hk : k < work.rows) :
    replay work (work.operations k sweep) = work.reduced k sweep := by
  have hswap : replay work (if work.pivotRow k k = k then [] else
      [.rowsSwapped k (work.pivotRow k k)]) = work.exchangeRows k (work.pivotRow k k) := by
    split_ifs with h
    · rw [h, exchangeRows_self]
      rfl
    · exact Step.replay_rowsSwapped work k (work.pivotRow k k)
  change replay work ((if work.pivotRow k k = k then [] else _) ++ _) = _
  rw [replay_append, hswap]
  change replay ((Step.rowNormalized k (work.pivot k)).replay _) _ = _
  rw [Step.replay_rowNormalized]
  exact replay_eliminations (m := work.normalized k) hk

theorem ne_snapshot_of_mem_operations {step : Step α} (h : step ∈ work.operations k sweep)
    (stage : Stage) (copy : DenseMatrix α) : step ≠ .snapshot stage copy := by
  rintro rfl
  simp only [operations, eliminations, List.mem_cons, List.mem_append, List.mem_map] at h
  rcases h with h | h | h | ⟨i, -, h⟩
  · cases h
  · split_ifs at h <;> simp at h
  · cases h
  · cases h

/-- Steps among which there is no copy after a column are retraced in any case. -/
theorem retraces_of_no_copy {steps : List (Step α)}
    (h : ∀ step ∈ steps, ∀ k copy, step ≠ .snapshot (.afterColumn k) copy) :
    Retraces work steps := by
  induction steps generalizing work with
  | nil => trivial
  | cons step rest ih =>
    obtain ⟨hstep, hrest⟩ := List.forall_mem_cons.mp h
    exact ⟨fun k copy heq => absurd heq (hstep k copy), ih hrest⟩

theorem retraces_columnSteps (hk : k < work.rows) :
    Retraces work (work.columnSteps k sweep) := by
  rw [columnSteps_eq]
  refine (retraces_of_no_copy fun step hstep k copy =>
    ne_snapshot_of_mem_operations hstep _ copy).append ⟨?_, trivial⟩
  intro k' copy hcopy
  cases hcopy
  exact (replay_operations hk).symm

theorem replay_columnSteps (hk : k < work.rows) :
    replay work (work.columnSteps k sweep) = work.reduced k sweep := by
  rw [columnSteps_eq, replay_append, replay_operations hk]
  rfl

/-- An elimination is retraced by its record, also when it fails. -/
theorem retraces_reduceFrom {left : ℕ} (hrows : k + left ≤ work.rows) :
    Retraces work (work.reduceFrom sweep k left).steps := by
  induction left generalizing k work with
  | zero => trivial
  | succ left ih =>
    have hk : k < work.rows := by omega
    rw [reduceFrom_succ]
    split_ifs
    · exact retraces_of_no_copy (by simp)
    · refine (retraces_columnSteps hk).append ?_
      rw [replay_columnSteps hk]
      exact ih (by rw [rows_reduced]; omega)

/-- A complete elimination ends with a copy of its result. -/
theorem last_copy_of_reduceFrom {result : DenseMatrix α} {left : ℕ}
    (h : (work.reduceFrom sweep k (left + 1)).outcome = .ok result) :
    ∃ earlier, (work.reduceFrom sweep k (left + 1)).steps =
      earlier ++ [.snapshot (.afterColumn (k + left)) result] := by
  induction left generalizing k work with
  | zero =>
    obtain ⟨hp, hrest⟩ := reduceFrom_succ_eq_ok h
    cases hrest
    rw [reduceFrom_succ, hp, if_neg Bool.false_ne_true, columnSteps_eq]
    exact ⟨work.operations k sweep, List.append_nil _⟩
  | succ left ih =>
    obtain ⟨hp, hrest⟩ := reduceFrom_succ_eq_ok h
    obtain ⟨earlier, hearlier⟩ := ih hrest
    rw [reduceFrom_succ, hp, if_neg Bool.false_ne_true]
    refine ⟨work.columnSteps k sweep ++ earlier, ?_⟩
    simp only [hearlier, List.append_assoc]
    rw [Nat.add_right_comm]
    rfl

end DenseMatrix

end DenseSystem
