import Mathlib.Tactic
import DenseSystem.Proofs.Solver.Forward
import DenseSystem.Proofs.Solver.WellFormed
import DenseSystem.Proofs.Threaded.Basic

/-! # Threaded attempts

The attempts as they run, with the observer handed from the first check of the system to the last
residual: rows are cleared and unknowns found one at a time, and each operation records its own step.
All of it follows the derivations, so a trace that is not enabled changes nothing but itself.
-/
namespace DenseSystem.Threaded

open DenseMatrix

variable {α : Type} [Scalar α] {m work system : DenseMatrix α} {k : ℕ} {sweep : Sweep}
  {method : Method} {x : List α}

/-! ## Eliminations -/

def clearColumn (m : DenseMatrix α) (k : ℕ) (sweep : Sweep) : Threaded α (DenseMatrix α) :=
  let first := Guarded.firstTarget k sweep
  (List.range' first (m.rows - first)).foldlM (fun work i => do
    let factor := work.entry i k
    if i = k ∨ Scalar.isZero factor then return work
    else
      record (.rowEliminated i k k factor)
      return work.eliminateRow i k k factor) m

theorem follows_clearColumn (hk : k < m.rows) (hkc : k < m.cols) :
    Follows (clearColumn m k sweep) ⟨m.eliminations k sweep, .ok (m.clearColumn k sweep)⟩ := by
  have hfirst : Guarded.firstTarget k sweep ≤ m.rows := by
    cases sweep with
    | below => exact hk
    | all => exact Nat.zero_le _
  apply Follows.loop (Guarded.clearedBefore m k sweep)
    (Guarded.clearedBefore_firstTarget m k sweep)
    (by rw [Nat.add_sub_cancel' hfirst, Guarded.clearedBefore_rows])
  intro i hi hlt
  have hrow : i < m.rows := by omega
  -- The rows above have changed already; row `i` has not.
  have hentry : (Guarded.clearedBefore m k sweep i).1.entry i k = m.entry i k :=
    entry_clearRows_of_notMem hrow hkc (Guarded.notMem_targetsBefore i)
  have hskip : m.isTarget k sweep i = false ↔ i = k ∨ Scalar.isZero (m.entry i k) = true := by
    by_cases hik : i = k
    · simp [hik, isTarget_self]
    · simp [hik, Guarded.isTarget_of_firstTarget_le hi hik]
  simp only [hentry]
  cases htarget : m.isTarget k sweep i with
  | false =>
    rw [Guarded.clearedBefore_succ_of_not_isTarget htarget, if_pos (hskip.mp htarget)]
    exact ⟨[], (List.append_nil _).symm, Follows.pure _⟩
  | true =>
    rw [Guarded.clearedBefore_succ_of_isTarget hk htarget,
      if_neg (hskip.not.mp (Bool.not_eq_false _ ▸ htarget))]
    exact ⟨_, rfl, Follows.record_pure ⟨rfl, rfl, rfl⟩ _⟩

def bringUp (work : DenseMatrix α) (k p : ℕ) : Threaded α (DenseMatrix α) :=
  if p = k then return work
  else do
    record (.rowsSwapped k p)
    return work.exchangeRows k p

theorem follows_bringUp (work : DenseMatrix α) (k p : ℕ) :
    Follows (bringUp work k p) ⟨if p = k then [] else [.rowsSwapped k p],
      .ok (if p = k then work else work.exchangeRows k p)⟩ := by
  unfold bringUp
  split_ifs
  · exact Follows.pure work
  · exact Follows.record_pure ⟨rfl, rfl, rfl⟩ _

def reduceColumn (work : DenseMatrix α) (k : ℕ) (sweep : Sweep) : Threaded α (DenseMatrix α) := do
  let p := work.pivotRow k k
  let pivot := work.entry p k
  record (.pivotSelected k p pivot)
  if isNearZero pivot then
    tell (.pivotRefused k pivot)
    throw (.zeroPivot k)
  else
    tell (.pivotTaken k p pivot)
    let up ← bringUp work k p
    record (.rowNormalized k pivot)
    let reduced ← clearColumn (up.normalizeRow k pivot) k sweep
    record (.snapshot (.afterColumn k) reduced)
    return reduced

theorem follows_reduceColumn (sweep : Sweep) (hk : k < work.rows) (hkc : k < work.cols) :
    Follows (reduceColumn work k sweep) (work.reduceColumn k sweep) := by
  refine Follows.search _ (Follows.bind_recordAll (follows_bringUp _ _ _) ?_)
  have hshape (p : ℕ) : (if p = k then work else work.exchangeRows k p).rows = work.rows ∧
      (if p = k then work else work.exchangeRows k p).cols = work.cols := by
    split_ifs <;> exact ⟨rfl, rfl⟩
  refine Follows.bind (Follows.record ⟨rfl, rfl, rfl⟩) fun _ _ => ?_
  refine Follows.bind_recordAll (follows_clearColumn ?_ ?_) ?_
  · exact hk.trans_eq (hshape _).1.symm
  · exact hkc.trans_eq (hshape _).2.symm
  · exact Follows.record_pure ⟨rfl, rfl, rfl⟩ _

def reduce (work : DenseMatrix α) (sweep : Sweep) : Threaded α (DenseMatrix α) :=
  (List.range work.rows).foldlM (fun work k => reduceColumn work k sweep) work

theorem follows_reduceFrom (sweep : Sweep) {left : ℕ} (hrows : k + left ≤ work.rows)
    (hcols : work.rows ≤ work.cols) :
    Follows ((List.range' k left).foldlM (fun work k => reduceColumn work k sweep) work)
      (work.reduceFrom sweep k left) := by
  induction left generalizing k work with
  | zero => exact Follows.pure work
  | succ left ih =>
    rw [List.range'_succ, List.foldlM_cons]
    refine Follows.bind (follows_reduceColumn sweep (by omega) (by omega))
      fun reduced hreduced => ?_
    rw [DenseMatrix.reduceColumn_eq] at hreduced
    split_ifs at hreduced
    cases hreduced
    exact ih (by rw [rows_reduced]; omega) hcols

theorem follows_reduce (sweep : Sweep) (hcols : work.rows ≤ work.cols) :
    Follows (reduce work sweep) (work.reduce sweep) := by
  rw [reduce, List.range_eq_range']
  exact follows_reduceFrom sweep (Nat.zero_add _).le hcols

/-! ## Inverses -/

def invert (m : DenseMatrix α) : Threaded α (DenseMatrix α) := do
  ofExcept m.checkSquare
  let start := m.besideIdentity
  record (.snapshot .initial start)
  let reduced ← reduce start .all
  let inverse ← ofExcept (reduced.block 0 m.rows m.rows m.rows)
  record (.inverse inverse)
  return inverse

theorem follows_invert (m : DenseMatrix α) : Follows (invert m) m.invert := by
  refine Follows.bind (Follows.ofExcept _) fun _ _ =>
    Follows.bind (Follows.record ⟨rfl, rfl, rfl⟩) fun _ _ => ?_
  have hcols : m.besideIdentity.rows ≤ m.besideIdentity.cols := by
    change m.rows ≤ 2 * m.rows
    omega
  refine Follows.bind (follows_reduce .all hcols) fun reduced _ =>
    Follows.bind (Follows.ofExcept _) fun inverse _ => ?_
  exact Follows.record_pure ⟨rfl, rfl, rfl⟩ inverse

/-- The inverse alone, with nobody to look at the steps. -/
def inverse (m : DenseMatrix α) : Except Error (DenseMatrix α) :=
  (run (invert m) { trace := ⟨false, []⟩ }).1

theorem inverse_eq (m : DenseMatrix α) : inverse m = m.inverse := by
  rw [inverse, follows_invert]
  rfl

/-! ## Back substitution -/

def unknown (work : DenseMatrix α) (x : List α) (i : ℕ) : α :=
  let later := List.range' (i + 1) (work.rows - (i + 1))
  work.entry i work.rows - sum (later.map fun j => work.entry i j * x.getD j 0)

def backSubstitute (work : DenseMatrix α) : Threaded α (List α) :=
  (List.range work.rows).reverse.foldlM (fun x i => do
    let value := unknown work x i
    record (.backSubstituted i value)
    return x.set i value) (List.replicate work.rows 0)

def foundLast (work : DenseMatrix α) (done : ℕ) : List α × List (Step α) :=
  let first := work.rows - done
  let found := work.backSubstitute first done
  (Guarded.knownFrom work done,
    ((found.zipIdx first).map fun (value, i) => Step.backSubstituted i value).reverse)

/-- Zeros in front of the known values have no part in the products. -/
theorem products_eq (work : DenseMatrix α) (i : ℕ) (values : List α) :
    (List.range' (i + 1) values.length).map (fun j =>
      work.entry i j * (List.replicate (i + 1) 0 ++ values).getD j 0) =
    List.zipWith (· * ·) ((List.range' (i + 1) values.length).map (work.entry i)) values := by
  rw [← Guarded.map_mul_getD]
  refine List.map_congr_left fun j hj => ?_
  rw [List.getD_append_right _ _ _ _ (by simpa using (List.mem_range'_1.mp hj).1),
    List.length_replicate]

theorem unknown_knownFrom {i done : ℕ} (h : work.rows = i + 1 + done) :
    work.backSubstitute i (done + 1) =
      unknown work (Guarded.knownFrom work done) i :: work.backSubstitute (i + 1) done := by
  have hfirst : work.rows - done = i + 1 := by omega
  have hleft : work.rows - (i + 1) = done := by omega
  have hproducts := products_eq work i (work.backSubstitute (i + 1) done)
  rw [length_backSubstitute] at hproducts
  simp only [unknown, Guarded.knownFrom, hfirst, hleft, hproducts, DenseMatrix.backSubstitute]

theorem foundLast_succ {i done : ℕ} (h : work.rows = i + 1 + done) :
    let value := unknown work (foundLast work done).1 i
    foundLast work (done + 1) = ((foundLast work done).1.set i value,
      (foundLast work done).2 ++ [.backSubstituted i value]) := by
  have hfirst : work.rows - done = i + 1 := by omega
  have hnext : work.rows - (done + 1) = i := by omega
  simp only [foundLast, hnext, unknown_knownFrom h]
  simp only [Guarded.knownFrom, hnext, hfirst, unknown_knownFrom h]
  rw [List.replicate_succ', List.append_assoc, List.set_append_right _ _ (by simp)]
  simp

theorem follows_backSubstitute (work : DenseMatrix α) :
    Follows (backSubstitute work)
      ⟨substitutions (work.backSubstitute 0 work.rows),
        .ok (work.backSubstitute 0 work.rows)⟩ := by
  rw [backSubstitute, List.range_eq_range', List.reverse_range', List.foldlM_map,
    List.range_eq_range']
  apply Follows.loop (foundLast work)
  · simp [foundLast, Guarded.knownFrom, DenseMatrix.backSubstitute]
  · simp [foundLast, Guarded.knownFrom, substitutions]
  intro done _ hdone
  rw [foundLast_succ (i := 0 + work.rows - 1 - done) (by omega)]
  exact ⟨_, rfl, Follows.record_pure ⟨rfl, rfl, rfl⟩ _⟩

/-! ## Methods -/

def eliminate (system : DenseMatrix α) (sweep : Sweep)
    (extract : DenseMatrix α → Threaded α (List α)) : Threaded α (Finding α) := do
  ofExcept system.validate
  let c ← classified system
  if c.status = .unique then
    record (.snapshot .initial system)
    let work ← reduce system sweep
    return .candidate (← extract work)
  else return .stopped c.status

theorem follows_eliminate (system : DenseMatrix α) (sweep : Sweep)
    {extract : DenseMatrix α → Threaded α (List α)}
    {extracted : DenseMatrix α → Derivation α (List α)}
    (hextract : ∀ work, Follows (extract work) (extracted work)) :
    Follows (eliminate system sweep extract) (system.eliminate sweep extracted) := by
  refine Follows.bind (Follows.ofExcept _) fun _ hvalid =>
    Follows.bind (Follows.classified system) fun c _ => ?_
  obtain ⟨-, hcols⟩ := isAugmented_iff.mp (validate_eq_ok_iff.mp hvalid).1
  split_ifs
  · refine Follows.bind (Follows.record ⟨rfl, rfl, rfl⟩) fun _ _ =>
      Follows.bind (follows_reduce sweep (by omega)) fun work _ => ?_
    exact Follows.bind (hextract work) fun _ _ => Follows.pure _
  · exact Follows.pure _

def gauss (system : DenseMatrix α) : Threaded α (Finding α) :=
  eliminate system .below backSubstitute

def gaussJordan (system : DenseMatrix α) : Threaded α (Finding α) :=
  eliminate system .all fun work => ofExcept (work.column work.rows)

/-- The ranks are also told of a system whose determinant is near zero. -/
def inverseMatrix (system : DenseMatrix α) : Threaded α (Finding α) := do
  ofExcept system.validate
  let a ← ofExcept system.coefficients
  let b ← ofExcept system.rhs
  let det ← ofExcept a.determinant
  setDeterminant det
  if isNearZero det then
    let _ ← classified system
    throw .singularMatrix
  else
    let c ← classified system
    if c.status = .unique then
      let inverse ← invert a
      return .candidate (← ofExcept (inverse.multiply b))
    else return .stopped c.status

theorem follows_gauss (system : DenseMatrix α) : Follows (gauss system) system.gauss := by
  apply follows_eliminate
  intro work
  simpa using follows_backSubstitute work

theorem follows_inverseMatrix (system : DenseMatrix α) :
    Follows (inverseMatrix system) system.inverseMatrix := by
  refine Follows.bind (Follows.ofExcept _) fun _ _ => Follows.bind (Follows.ofExcept _) fun a _ =>
    Follows.bind (Follows.ofExcept _) fun b _ => Follows.bind (Follows.ofExcept _) fun det _ =>
      Follows.bind (Follows.setDeterminant det) fun _ _ => ?_
  have hclassified := Follows.classified system
  split_ifs
  · exact Follows.bind hclassified fun _ _ => Follows.throw _
  · refine Follows.bind hclassified fun c _ => ?_
    split_ifs
    · exact Follows.bind (follows_invert a) fun inverse _ =>
        Follows.bind (Follows.ofExcept _) fun _ _ => Follows.pure _
    · exact Follows.pure _

def strategy (system : DenseMatrix α) : Method → Threaded α (Finding α)
  | .gauss => gauss system
  | .gaussJordan => gaussJordan system
  | .inverseMatrix => inverseMatrix system

theorem follows_strategy (system : DenseMatrix α) (method : Method) :
    Follows (strategy system method) (system.strategy method) := by
  cases method with
  | gauss => exact follows_gauss system
  | gaussJordan => exact follows_eliminate system .all fun _ => Follows.ofExcept _
  | inverseMatrix => exact follows_inverseMatrix system

/-! ## Attempts -/

def checkResiduals (system : DenseMatrix α) (row : ℕ) (worst : α) : List α → Threaded α α
  | [] => return worst
  | r :: rest => do
    let error := Scalar.abs r
    if Scalar.isFinite error then
      let rhs := system.entry row system.rows
      record (.residual row (rhs + r) rhs error)
      checkResiduals system (row + 1) (if Scalar.lt worst error then error else worst) rest
    else throw (.nonFinite .residual)

theorem follows_checkResiduals (system : DenseMatrix α) (row : ℕ) (worst : α) (rs : List α) :
    Follows (checkResiduals system row worst rs) (system.checkResiduals row worst rs) := by
  induction rs generalizing row worst with
  | nil => exact Follows.pure worst
  | cons r rs ih =>
    rw [checkResiduals, DenseMatrix.checkResiduals]
    dsimp only
    by_cases hr : Scalar.isFinite (Scalar.abs r) = true
    · rw [if_pos hr, if_pos hr]
      exact Follows.bind (Follows.record ⟨rfl, rfl, rfl⟩) fun _ _ => ih _ _
    · rw [if_neg hr, if_neg hr]
      exact Follows.throw _

def check (system : DenseMatrix α) (x : List α) : Threaded α α := do
  if x.all Scalar.isFinite then
    record (.solutionExtracted x)
    let residuals ← ofExcept (system.residuals x)
    checkResiduals system 0 0 residuals
  else throw (.nonFinite .solution)

theorem follows_check (system : DenseMatrix α) (x : List α) :
    Follows (check system x) (system.check x) := by
  rw [check, DenseMatrix.check]
  split_ifs
  · exact Follows.bind (Follows.record ⟨rfl, rfl, rfl⟩) fun _ _ =>
      Follows.bind (Follows.ofExcept _) fun _ _ => follows_checkResiduals _ _ _ _
  · exact Follows.throw _

def verdict (system : DenseMatrix α) : Finding α → Threaded α (Verdict α)
  | .stopped status => return .stopped status
  | .candidate x => return .solved x (← check system x)

theorem follows_verdict (system : DenseMatrix α) (finding : Finding α) :
    Follows (verdict system finding) (system.verdict finding) := by
  cases finding with
  | stopped status => exact Follows.pure _
  | candidate x => exact Follows.bind (follows_check system x) fun _ _ => Follows.pure _

/-- The observer of a run, which is told at once what will be solved. -/
def observer (system : DenseMatrix α) (method : Method) (traced : Bool) : Observer α where
  trace := ⟨traced, []⟩
  log := [.solving method system.rows system.cols]

/-- What is made of a run that has ended. A failure is told and recorded last of all, and a trace that
is not enabled is not handed over. -/
def finish (method : Method) : Except Error (Verdict α) × Observer α → Report α × List (Event α)
  | (.ok (.solved x maxResidual), o) =>
    ({  method := method
        status := .unique
        solution := some x
        maxResidual := some maxResidual
        determinant := o.determinant
        trace := if o.trace.enabled then some o.trace else none },
      o.log ++ [.solved method maxResidual])
  | (.ok (.stopped status), o) =>
    ({  method := method
        status := status
        determinant := o.determinant
        trace := if o.trace.enabled then some o.trace else none },
      o.log ++ [.stopped method status])
  | (.error e, o) =>
    let contradicted := e.isDegenerate && o.classification.any (·.status = .unique)
    let closed := o.trace.record (.failed e.message)
    ({  method := method
        status := .error
        determinant := o.determinant
        error := some e.message
        trace := if closed.enabled then some closed else none },
      o.log ++ [if contradicted then .contradicted method e else .failed method e])

def solve (system : DenseMatrix α) (method : Method) (traced : Bool) :
    Report α × List (Event α) :=
  finish method (run (do verdict system (← strategy system method))
    (observer system method traced))

/-! ## What is kept -/

theorem getLast?_filterMap {β γ : Type} {f : β → Option γ} {xs : List β}
    (h : (xs.filterMap f).length ≤ 1) : (xs.filterMap f).getLast? = xs.findSome? f := by
  rw [← List.head?_filterMap]
  cases hys : xs.filterMap f with
  | nil => rfl
  | cons c rest =>
    rw [hys, List.length_cons] at h
    rw [List.eq_nil_of_length_eq_zero (by omega : rest.length = 0)]
    rfl

/-- What only opening steps tell is told by the opening steps of an attempt. -/
theorem filterMap_attempt {β : Type} {f : Step α → Option β}
    (hf : ∀ step, step.phase ≠ .opening → f step = none) (system : DenseMatrix α)
    (method : Method) :
    (system.attempt method).steps.filterMap f <+: (system.openingSteps method).filterMap f := by
  obtain ⟨closing, hsteps, hclosing⟩ := system.steps_attempt method
  have hnone {steps : List (Step α)} (h : ∀ step ∈ steps, step.phase ≠ .opening) :
      steps.filterMap f = [] :=
    List.filterMap_eq_nil_iff.mpr fun step hstep => hf step (h step hstep)
  rw [hsteps, List.filterMap_append, hnone (hclosing.ne_opening (by decide)), List.append_nil]
  cases hvalid : system.validate with
  | error e =>
    rw [strategy_of_invalid hvalid]
    exact List.nil_prefix
  | ok u =>
    obtain ⟨rest, hrest, hphase⟩ := steps_strategy_of_valid hvalid method
    rw [hrest, List.filterMap_append, hnone hphase, List.append_nil]

theorem length_determinants_le (system : DenseMatrix α) (method : Method) :
    ((system.attempt method).steps.filterMap Step.determinant?).length ≤ 1 := by
  refine (filterMap_attempt (fun step hstep => ?_) system method).length_le.trans ?_
  · cases step with
    | determinant value => exact absurd rfl hstep
    | _ => rfl
  · cases method with
    | inverseMatrix => exact le_rfl
    | _ => exact Nat.zero_le 1

theorem length_classifications_le (system : DenseMatrix α) (method : Method) :
    ((system.attempt method).steps.filterMap Step.classification?).length ≤ 1 := by
  refine (filterMap_attempt (fun step hstep => ?_) system method).length_le.trans ?_
  · cases step with
    | classified c => exact absurd rfl hstep
    | _ => rfl
  · cases method <;> exact le_rfl

theorem after_observer (method : Method) (traced : Bool) {steps : List (Step α)}
    (h : steps <+: (system.attempt method).steps) :
    (observer system method traced).after steps =
      { trace := ⟨traced, if traced then steps else []⟩
        log := .solving method system.rows system.cols :: steps.filterMap Event.ofStep?
        classification := steps.findSome? Step.classification?
        determinant := steps.findSome? Step.determinant? } := by
  refine Observer.ext ?_ ?_ ?_ ?_
  · rw [Observer.trace_after]
    cases traced <;> rfl
  · exact Observer.log_after _ _
  · rw [Observer.classification_after,
      getLast?_filterMap ((h.filterMap _).length_le.trans (length_classifications_le ..))]
    exact Option.or_none
  · rw [Observer.determinant_after,
      getLast?_filterMap ((h.filterMap _).length_le.trans (length_determinants_le ..))]
    exact Option.or_none

theorem solve_eq (system : DenseMatrix α) (method : Method) (traced : Bool) :
    solve system method traced =
      (DenseSystem.solve system method traced, solveLog system method) := by
  have hrun : Follows (do verdict system (← strategy system method))
      (system.strategy method >>= system.verdict) :=
    Follows.bind (follows_strategy system method) fun finding _ => follows_verdict system finding
  rw [solve, hrun]
  cases houtcome : (system.strategy method >>= system.verdict).outcome with
  | ok verdict =>
    have hattempt : system.attempt method = system.strategy method >>= system.verdict := by
      simp only [attempt, houtcome]
    rw [after_observer method traced (by rw [hattempt]), DenseSystem.solve, solveLog,
      hattempt, Report.ofDerivation, Event.ending, houtcome]
    cases verdict <;> cases traced <;> simp [finish]
  | error e =>
    have hattempt : system.attempt method =
        ⟨(system.strategy method >>= system.verdict).steps ++ [.failed e.message], .error e⟩ := by
      simp only [attempt, houtcome]
    rw [after_observer method traced (by rw [hattempt]; exact List.prefix_append _ _),
      DenseSystem.solve, solveLog, hattempt, Report.ofDerivation, Event.ending]
    -- The log is told nothing of the last step, and nothing is kept of it.
    have hfailed : ([.failed e.message] : List (Step α)).filterMap Event.ofStep? = [] := rfl
    cases traced <;>
      simp [finish, Trace.record, hfailed, Step.determinant?, Step.classification?]

end DenseSystem.Threaded
