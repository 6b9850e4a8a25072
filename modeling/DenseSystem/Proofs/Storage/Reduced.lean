import Mathlib.Tactic
import DenseSystem.Proofs.Elimination.Shape
import DenseSystem.Proofs.Solver.Forward
import DenseSystem.Proofs.Solver.Retraced
import DenseSystem.Proofs.Storage.Elimination

/-! # What an elimination leaves in memory

A column that is done holds ones and zeros that were written over the results of the arithmetic.
Later columns only exchange rows of it that hold zeros there, so it stays exact, whatever infinities
and NaN come up to its right. A column without a pivot is refused before anything is written.
-/
namespace DenseSystem

namespace DenseMatrix

/-! ## Exact columns -/

/-- The first `k` columns have exact ones on the diagonal and zeros below. After a full sweep they
are those of an identity. -/
structure ExactlyReduced (sweep : Sweep) (k : ℕ) (work : DenseMatrix Float) : Prop where
  one : ∀ j < k, work.entry j j = 1.0
  zero_below : ∀ j < k, ∀ i < work.rows, j < i → (work.entry i j == 0.0) = true
  identity_columns : sweep = .all → ∀ j < k, ∀ i < work.rows,
    (work.entry i j == (identity work.rows : DenseMatrix Float).entry i j) = true

def IdentityOnLeft (work : DenseMatrix Float) : Prop :=
  ∃ left, work.block 0 0 work.rows work.rows = .ok left ∧ (left == identity work.rows) = true

section Exact

variable {sweep : Sweep} {k : ℕ} {m work : DenseMatrix Float}

theorem ReducedUpTo.exactlyReduced (h : ReducedUpTo sweep k work) (hk : k ≤ work.rows) :
    ExactlyReduced sweep k work where
  one j hj := (h j hj).1
  zero_below j hj i hi hji := (h j hj).2 i hi (reaches_of_lt sweep hji)
  identity_columns := by
    rintro rfl j hj i hi
    rw [identity, entry_ofFn _ hi (hj.trans_le hk)]
    by_cases hij : i = j
    · subst hij
      have hone : ((1 : Float) == 1) = true := by decide +kernel
      rwa [if_pos rfl, (h i hj).1]
    · rw [if_neg hij]
      exact (h j hj).2 i hi (decide_eq_true hij)

theorem ExactlyReduced.identityOnLeft (h : ExactlyReduced .all work.rows work)
    (hshape : work.rows ≤ work.cols) : work.IdentityOnLeft := by
  refine ⟨_, if_pos ⟨(Nat.zero_add _).le, (Nat.zero_add _).trans_le hshape⟩, ?_⟩
  refine beq_of_entry rfl rfl fun i (hi : i < work.rows) j (hj : j < work.rows) => ?_
  rw [entry_ofFn _ hi hj, Nat.zero_add, Nat.zero_add]
  exact h.identity_columns rfl j hj i hi

theorem Reaches.exactlyReduced (h : m.Reaches sweep k work) (hshape : m.rows ≤ m.cols)
    (hk : k ≤ m.rows) : ExactlyReduced sweep k work := by
  obtain ⟨hrows, -⟩ := h.shape hk
  have hzero : Scalar.isZero (0 : Float) = true := by decide +kernel
  exact (h.reducedUpTo hzero hshape hk).exactlyReduced (hk.trans_eq hrows.symm)

theorem identityOnLeft_of_reduce (h : (m.reduce .all).outcome = .ok work)
    (hshape : m.rows ≤ m.cols) : work.IdentityOnLeft := by
  obtain ⟨hrows, hcols⟩ := rows_of_reduce h
  have hreach : m.Reaches .all m.rows work := h
  have hexact := hreach.exactlyReduced hshape le_rfl
  rw [← hrows] at hexact
  exact hexact.identityOnLeft (by omega)

end Exact

/-! ## Copies -/

section Copies

variable {α : Type} [Scalar α] {sweep : Sweep} {k j left : ℕ} {m work copy : DenseMatrix α}

/-- A copy after a column is the matrix with which the elimination comes to the next. -/
theorem reaches_of_copy (hreach : m.Reaches sweep k work) (hrows : k + left ≤ m.rows)
    (h : .snapshot (.afterColumn j) copy ∈ (work.reduceFrom sweep k left).steps) :
    j < m.rows ∧ m.Reaches sweep (j + 1) copy := by
  induction left generalizing k work with
  | zero => exact absurd h List.not_mem_nil
  | succ left ih =>
    rw [reduceFrom_succ] at h
    split_ifs at h with hp
    · simp at h
    · have hnext := hreach.next (Bool.eq_false_of_not_eq_true hp)
      rw [columnSteps_eq, List.mem_append, List.mem_append] at h
      -- The operations of a column record no copies, its last step is one, the others come later.
      rcases h with (h | h) | h
      · exact absurd rfl (ne_snapshot_of_mem_operations h _ _)
      · cases List.mem_singleton.mp h
        exact ⟨by omega, hnext⟩
      · exact ih hnext (by omega) h

theorem copy_mem_reduce_of_invert (h : .snapshot (.afterColumn j) copy ∈ m.invert.steps) :
    m.isSquare = true ∧ .snapshot (.afterColumn j) copy ∈ (m.besideIdentity.reduce .all).steps := by
  cases hsquare : m.isSquare with
  | false =>
    rw [invert, checkSquare, hsquare] at h
    exact absurd h List.not_mem_nil
  | true =>
    refine ⟨rfl, ?_⟩
    cases hreduce : (m.besideIdentity.reduce .all).outcome with
    | ok work =>
      rw [invert_of_ok hsquare hreduce] at h
      simpa using h
    | error e =>
      rw [invert_of_error hsquare hreduce] at h
      simpa using h

theorem rows_le_cols_startMatrix (haug : m.isAugmented = true) (method : Method) :
    (m.startMatrix method).rows ≤ (m.startMatrix method).cols := by
  rw [rows_startMatrix]
  exact (agreeFrom_startMatrix haug method).left_le

end Copies

section ExactCopies

variable {sweep : Sweep} {k : ℕ} {m system copy : DenseMatrix Float} {method : Method}

theorem exactlyReduced_of_copy (hshape : m.rows ≤ m.cols)
    (h : .snapshot (.afterColumn k) copy ∈ (m.reduce sweep).steps) :
    copy.rows = m.rows ∧ ExactlyReduced sweep (k + 1) copy := by
  obtain ⟨hk, hreach⟩ := reaches_of_copy (m.reaches_zero sweep) (Nat.zero_add m.rows).le h
  exact ⟨(hreach.shape hk).1, hreach.exactlyReduced hshape hk⟩

theorem exactlyReduced_of_copy_attempt
    (h : .snapshot (.afterColumn k) copy ∈ (system.attempt method).steps) :
    copy.rows = system.rows ∧ ExactlyReduced method.sweep (k + 1) copy := by
  obtain ⟨before, after, hsteps⟩ := List.append_of_mem h
  obtain ⟨since, rest, hbefore, hreduction⟩ := starts_of_copy hsteps
  have hstarts : Starts system method := by
    refine started_attempt_iff.mp ⟨system.startMatrix method, ?_⟩
    simp [hsteps, hbefore]
  have hshape := rows_le_cols_startMatrix (validate_eq_ok_iff.mp hstarts.valid).1 method
  have hcopy : .snapshot (.afterColumn k) copy ∈ (system.reduction method).steps := by
    simp [hreduction]
  obtain ⟨hrows, hexact⟩ := exactlyReduced_of_copy hshape hcopy
  exact ⟨hrows.trans (rows_startMatrix system method), hexact⟩

end ExactCopies

end DenseMatrix

/-! ## Columns in memory -/

namespace Storage

open Change DenseMatrix

variable {α : Type} [Scalar α] {sweep : Sweep} {k j left : ℕ} {m work : DenseMatrix α}
  {s : Storage α}

/-- A search for a pivot that starts outside of the matrix is aborted. -/
theorem run_reduceColumn_of_outside (h : ¬ (k < m.rows ∧ k < m.cols)) :
    run (reduceColumn sweep k) m.storage =
      (.error (.breach (.outOfRange (.pivotSearch k k m.rows m.cols))), m.storage) := by
  refine run_reading_bind_of_error ?_ _
  rw [pivotRow, Guarded.require]
  exact congrArg (fun x => guarded x >>= _) (if_neg h)

/-- The ways in which the call for one column ends. Only the one that succeeds changes the matrix. -/
theorem run_reduceColumn_cases (sweep : Sweep) (k : ℕ) (m : DenseMatrix α) :
    (k < m.rows ∧ isNearZero (m.pivot k) = false ∧
        run (reduceColumn sweep k) m.storage = (.ok (), (m.reduced k sweep).storage)) ∨
      run (reduceColumn sweep k) m.storage = (.error (.error (.zeroPivot k)), m.storage) ∨
      run (reduceColumn sweep k) m.storage =
        (.error (.breach (.outOfRange (.pivotSearch k k m.rows m.cols))), m.storage) := by
  by_cases hinside : k < m.rows ∧ k < m.cols
  · have hcolumn := run_reduceColumn sweep hinside.1 hinside.2
    rw [DenseMatrix.reduceColumn_eq] at hcolumn
    cases hnear : isNearZero (m.pivot k) with
    | false =>
      rw [hnear] at hcolumn
      exact .inl ⟨hinside.1, rfl, hcolumn⟩
    | true =>
      rw [hnear] at hcolumn
      exact .inr (.inl hcolumn)
  · exact .inr (.inr (run_reduceColumn_of_outside hinside))

theorem eq_of_run_eq_zeroPivot
    (h : run (reduceColumn sweep k) m.storage = (.error (.error (.zeroPivot j)), s)) :
    j = k ∧ s = m.storage := by
  rcases run_reduceColumn_cases sweep k m with ⟨-, -, hrun⟩ | hrun | hrun <;> rw [hrun] at h
  · cases h
  · cases h
    exact ⟨rfl, rfl⟩
  · cases h

/-- Columns that succeed one after the other are an elimination, and the matrix it comes to is in
memory. -/
theorem reaches_of_run (hreach : m.Reaches sweep k work) (hk : k ≤ m.rows)
    (h : run ((List.range' k left).forM (reduceColumn sweep)) work.storage = (.ok (), s)) :
    k + left ≤ m.rows ∧ ∃ result, m.Reaches sweep (k + left) result ∧ s = result.storage := by
  induction left generalizing k work with
  | zero =>
    cases h
    exact ⟨hk, work, hreach, rfl⟩
  | succ left ih =>
    rw [List.range'_succ] at h
    change run (reduceColumn sweep k >>= fun _ => (List.range' (k + 1) left).forM _) _ = _ at h
    -- The loop goes on after the only way of a column to succeed, and ends with both failures.
    rcases run_reduceColumn_cases sweep k work with ⟨hlt, hp, hrun⟩ | hrun | hrun
    · rw [run_bind_of_ok hrun] at h
      rw [(hreach.shape hk).1] at hlt
      have hrest := ih (hreach.next hp) hlt h
      rwa [Nat.add_right_comm] at hrest
    · rw [run_bind_of_error hrun] at h
      cases h
    · rw [run_bind_of_error hrun] at h
      cases h

end Storage

open Storage DenseMatrix in
/-- Over doubles, infinities and NaN included, the columns that were reduced one after the other are
exact: ones on the diagonal, zeros below it, and the columns of an identity after a full sweep. A
column without a pivot leaves the matrix as it was. So the left block is an identity when the
elimination of a full sweep is complete, in a method and in an inversion, and every copy that is
recorded after a column has its exact shape. -/
theorem exact_columns_and_clean_failure (m : DenseMatrix Float) :
    (m.rows ≤ m.cols → ∀ sweep count s,
      Change.run ((List.range' 0 count).forM (reduceColumn sweep)) m.storage = (.ok (), s) →
        ∃ work, s = work.storage ∧ work.rows = m.rows ∧ work.cols = m.cols ∧
          (m.reduceFrom sweep 0 count).outcome = .ok work ∧ ExactlyReduced sweep count work) ∧
      (∀ sweep k j s,
        Change.run (reduceColumn sweep k) m.storage = (.error (.error (.zeroPivot j)), s) →
          j = k ∧ s = m.storage) ∧
      (∀ method x, method.sweep = .all → (m.strategy method).outcome = .ok (.candidate x) →
        ∃ work, .snapshot (.afterColumn (m.rows - 1)) work ∈ (m.attempt method).steps ∧
          x = m.readOff work method ∧ work.rows = m.rows ∧ work.IdentityOnLeft) ∧
      (∀ inverse, m.inverse = .ok inverse →
        ∃ work, (m.besideIdentity.reduce .all).outcome = .ok work ∧ work.rows = m.rows ∧
          work.block 0 m.rows m.rows m.rows = .ok inverse ∧ work.IdentityOnLeft) ∧
      (∀ method trace k copy, (solve m method true).trace = some trace →
        .snapshot (.afterColumn k) copy ∈ trace.steps →
          copy.rows = m.rows ∧ ExactlyReduced method.sweep (k + 1) copy) ∧
      ∀ k copy, .snapshot (.afterColumn k) copy ∈ m.invert.steps →
        copy.rows = m.rows ∧ ExactlyReduced .all (k + 1) copy := by
  have hbeside : m.besideIdentity.rows ≤ m.besideIdentity.cols := by
    change m.rows ≤ 2 * m.rows
    omega
  refine ⟨fun hshape sweep count s h => ?_, fun sweep k j s => eq_of_run_eq_zeroPivot,
    fun method x hsweep hx => ?_, fun inverse h => ?_, fun method trace k copy htrace hcopy => ?_,
    fun k copy hcopy => ?_⟩
  · obtain ⟨hcount, work, hreach, rfl⟩ := reaches_of_run (m.reaches_zero sweep) (Nat.zero_le _) h
    rw [Nat.zero_add] at hcount hreach
    obtain ⟨hrows, hcols⟩ := hreach.shape hcount
    exact ⟨work, rfl, hrows, hcols, hreach, hreach.exactlyReduced hshape hcount⟩
  · obtain ⟨work, before, closing, hwork, hread, hsteps, -, -⟩ := steps_attempt_of_candidate hx
    have haug := (validate_eq_ok_iff.mp (validate_of_candidate hx)).1
    have hrows : work.rows = (m.startMatrix method).rows := (rows_of_reduce hwork).1
    rw [rows_startMatrix] at hrows
    rw [reduction, hsweep] at hwork
    refine ⟨work, ?_, hread, hrows,
      identityOnLeft_of_reduce hwork (rows_le_cols_startMatrix haug method)⟩
    rw [hsteps]
    exact List.mem_append_right _ List.mem_cons_self
  · obtain ⟨work, hwork, rfl, -⟩ := invert_eq_rightHalf h
    have hrows : work.rows = m.rows ∧ work.cols = 2 * m.rows := rows_of_reduce hwork
    exact ⟨work, hwork, hrows.1, block_eq_rightHalf hrows.1 hrows.2,
      identityOnLeft_of_reduce hwork hbeside⟩
  · rw [trace_solve] at htrace
    cases htrace
    exact exactlyReduced_of_copy_attempt hcopy
  · obtain ⟨hsquare, hcopy⟩ := copy_mem_reduce_of_invert hcopy
    exact exactlyReduced_of_copy (m := m.besideIdentity) hbeside hcopy

open Storage DenseMatrix in
/-- The difference of two infinities, above the second pivot, is overwritten with a zero. -/
theorem exact_columns_of_infinite_entry :
    let m : DenseMatrix Float := ⟨2, 3, #[2, 1.0 / 0.0, 1, 1, 3, 0.0 / 0.0], rfl⟩
    m.rows ≤ m.cols ∧ ∃ work, ExactlyReduced .all 2 work ∧
      Change.run ((List.range' 0 2).forM (reduceColumn .all)) m.storage = (.ok (), work.storage) := by
  intro m
  have hsucceeds : (Change.run ((List.range' 0 2).forM (reduceColumn .all)) m.storage).1.isOk =
      true := by
    decide +kernel
  cases hrun : Change.run ((List.range' 0 2).forM (reduceColumn .all)) m.storage with
  | mk outcome s =>
    rw [hrun] at hsucceeds
    cases outcome with
    | error e => cases hsucceeds
    | ok _ =>
      obtain ⟨work, rfl, -, -, -, hexact⟩ :=
        (exact_columns_and_clean_failure m).1 (by decide) .all 2 s hrun
      exact ⟨by decide, work, hexact, rfl⟩

end DenseSystem
