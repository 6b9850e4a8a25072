import Mathlib.Tactic
import DenseSystem.Proofs.Solver.Candidate

/-! # The course of an attempt

All methods run alike. What is known of the whole matrix is recorded, and if it promises a unique
solution, one matrix is reduced. A vector is read off the result, and checks of the vector follow.
Only the reduction searches for pivots, changes rows and copies the matrix.
-/
namespace DenseSystem

def Method.sweep : Method → Sweep
  | gauss => .below
  | gaussJordan | inverseMatrix => .all

inductive Phase where
  | opening
  | reduction
  | reading
  | closing
deriving DecidableEq

section Phases

variable {α : Type}

def Step.phase : Step α → Phase
  | classified .. | determinant .. => .opening
  | pivotSelected .. | rowsSwapped .. | rowNormalized .. | rowEliminated .. | snapshot .. =>
    .reduction
  | inverse .. | backSubstituted .. => .reading
  | solutionExtracted .. | residual .. | failed .. => .closing

def InPhase (phase : Phase) (steps : List (Step α)) : Prop := ∀ step ∈ steps, step.phase = phase

variable {phase : Phase} {steps : List (Step α)}

theorem inPhase_nil (phase : Phase) : InPhase phase ([] : List (Step α)) :=
  fun _ hstep => absurd hstep List.not_mem_nil

theorem InPhase.cons {step : Step α} (h : step.phase = phase) (hs : InPhase phase steps) :
    InPhase phase (step :: steps) :=
  List.forall_mem_cons.mpr ⟨h, hs⟩

theorem InPhase.append {first second : List (Step α)} (hf : InPhase phase first)
    (hs : InPhase phase second) : InPhase phase (first ++ second) :=
  List.forall_mem_append.mpr ⟨hf, hs⟩

theorem InPhase.notMem (h : InPhase phase steps) {step : Step α} (hne : step.phase ≠ phase) :
    step ∉ steps :=
  fun hmem => hne (h step hmem)

end Phases

namespace DenseMatrix

variable {α : Type} [Scalar α]

def startMatrix (system : DenseMatrix α) : Method → DenseMatrix α
  | .gauss | .gaussJordan => system
  | .inverseMatrix => system.coefficientPart.besideIdentity

def reduction (system : DenseMatrix α) (method : Method) : Derivation α (DenseMatrix α) :=
  (system.startMatrix method).reduce method.sweep

structure Starts (system : DenseMatrix α) (method : Method) : Prop where
  valid : system.validate = .ok ()
  unique : system.classification.status = .unique
  determinant : method = .inverseMatrix → isNearZero system.coefficientDeterminant = false

def openingSteps (system : DenseMatrix α) : Method → List (Step α)
  | .gauss | .gaussJordan => [.classified system.classification]
  | .inverseMatrix =>
    [.determinant system.coefficientDeterminant, .classified system.classification]

def readOff (system work : DenseMatrix α) : Method → List α
  | .gauss => work.backSubstitute 0 work.rows
  | .gaussJordan => work.rhsPart
  | .inverseMatrix => system.inverseProduct work

def readingSteps (system work : DenseMatrix α) : Method → List (Step α)
  | .gauss => substitutions (work.backSubstitute 0 work.rows)
  | .gaussJordan => []
  | .inverseMatrix => [.inverse (work.rightHalf system.rows)]

variable {system work : DenseMatrix α} {method : Method}

@[simp] theorem rows_startMatrix (system : DenseMatrix α) (method : Method) :
    (system.startMatrix method).rows = system.rows := by
  cases method <;> rfl

theorem inPhase_openingSteps (system : DenseMatrix α) (method : Method) :
    InPhase .opening (system.openingSteps method) := by
  cases method <;> simp [InPhase, openingSteps, Step.phase]

theorem inPhase_columnSteps (work : DenseMatrix α) (k : ℕ) (sweep : Sweep) :
    InPhase .reduction (work.columnSteps k sweep) := by
  refine InPhase.cons rfl (InPhase.append ?_ (InPhase.cons rfl (InPhase.append ?_ ?_)))
  · split_ifs
    · exact inPhase_nil _
    · exact InPhase.cons rfl (inPhase_nil _)
  · intro step hstep
    obtain ⟨i, -, rfl⟩ := List.mem_map.mp hstep
    rfl
  · exact InPhase.cons rfl (inPhase_nil _)

theorem inPhase_reduceFrom (work : DenseMatrix α) (sweep : Sweep) (k left : ℕ) :
    InPhase .reduction (work.reduceFrom sweep k left).steps := by
  induction left generalizing k work with
  | zero => exact inPhase_nil _
  | succ left ih =>
    rw [reduceFrom_succ]
    split_ifs
    · exact InPhase.cons rfl (inPhase_nil _)
    · exact (work.inPhase_columnSteps k sweep).append (ih _ _)

theorem inPhase_reduction (system : DenseMatrix α) (method : Method) :
    InPhase .reduction (system.reduction method).steps :=
  inPhase_reduceFrom _ _ _ _

theorem inPhase_readingSteps (system work : DenseMatrix α) (method : Method) :
    InPhase .reading (system.readingSteps work method) := by
  cases method with
  | gauss =>
    intro step hstep
    obtain ⟨⟨value, i⟩, -, rfl⟩ := List.mem_map.mp (List.mem_reverse.mp hstep)
    rfl
  | gaussJordan => exact inPhase_nil _
  | inverseMatrix => exact InPhase.cons rfl (inPhase_nil _)

/-! ## The strategies -/

theorem eliminate_of_unique {sweep : Sweep} {extract : DenseMatrix α → Derivation α (List α)}
    (hvalid : system.validate = .ok ()) (hunique : system.classification.status = .unique) :
    system.eliminate sweep extract =
      ⟨.classified system.classification :: .snapshot .initial system ::
          (system.findCandidate sweep extract).steps,
        (system.findCandidate sweep extract).outcome⟩ := by
  rw [eliminate_eq hvalid, if_pos hunique]

theorem eliminate_of_reduced {sweep : Sweep} {extract : DenseMatrix α → Derivation α (List α)}
    {x : List α} {steps : List (Step α)} (hvalid : system.validate = .ok ())
    (hunique : system.classification.status = .unique)
    (hwork : (system.reduce sweep).outcome = .ok work) (hx : extract work = ⟨steps, .ok x⟩) :
    system.eliminate sweep extract =
      ⟨.classified system.classification :: .snapshot .initial system ::
          ((system.reduce sweep).steps ++ steps), .ok (.candidate x)⟩ := by
  rw [eliminate_of_unique hvalid hunique, findCandidate, Derivation.bind_of_ok hwork, hx,
    Derivation.bind_of_ok rfl]
  simp

theorem eliminate_of_stuck {sweep : Sweep} {extract : DenseMatrix α → Derivation α (List α)}
    {e : Error} (hvalid : system.validate = .ok ())
    (hunique : system.classification.status = .unique)
    (he : (system.reduce sweep).outcome = .error e) :
    system.eliminate sweep extract =
      ⟨.classified system.classification :: .snapshot .initial system ::
          (system.reduce sweep).steps, .error e⟩ := by
  rw [eliminate_of_unique hvalid hunique, findCandidate, Derivation.bind_of_error he]

theorem applyInverse_of_unique (hunique : system.classification.status = .unique)
    (hdet : isNearZero system.coefficientDeterminant = false) :
    system.applyInverse = system.coefficientPart.invert >>= fun inverse =>
      .ofExcept (inverse.multiply system.rhsPart) >>= fun x => pure (.candidate x) := by
  rw [applyInverse, hdet, if_neg Bool.false_ne_true, if_pos hunique]

theorem isSquare_coefficientPart (system : DenseMatrix α) :
    system.coefficientPart.isSquare = true := by
  simp [isSquare]

theorem invert_of_ok {m : DenseMatrix α} (h : m.isSquare = true)
    (hwork : (m.besideIdentity.reduce .all).outcome = .ok work) :
    m.invert = ⟨.snapshot .initial m.besideIdentity ::
      ((m.besideIdentity.reduce .all).steps ++ [.inverse (work.rightHalf m.rows)]),
        .ok (work.rightHalf m.rows)⟩ := by
  have hshape : work.rows = m.rows ∧ work.cols = 2 * m.rows := rows_of_reduce hwork
  rw [invert_eq m h, Derivation.record_bind, Derivation.bind_of_ok hwork,
    block_eq_rightHalf hshape.1 hshape.2]
  rfl

theorem invert_of_error {m : DenseMatrix α} {e : Error} (h : m.isSquare = true)
    (he : (m.besideIdentity.reduce .all).outcome = .error e) :
    m.invert =
      ⟨.snapshot .initial m.besideIdentity :: (m.besideIdentity.reduce .all).steps, .error e⟩ := by
  rw [invert_eq m h, Derivation.record_bind, Derivation.bind_of_error he]

theorem strategy_of_reduced (h : Starts system method)
    (hwork : (system.reduction method).outcome = .ok work) :
    system.strategy method =
      ⟨system.openingSteps method ++ .snapshot .initial (system.startMatrix method) ::
          ((system.reduction method).steps ++ system.readingSteps work method),
        .ok (.candidate (system.readOff work method))⟩ := by
  cases method with
  | gauss =>
    have hextract : (Derivation.recordAll (substitutions (work.backSubstitute 0 work.rows)) >>=
        fun _ => pure (work.backSubstitute 0 work.rows)) =
          ⟨substitutions (work.backSubstitute 0 work.rows),
            .ok (work.backSubstitute 0 work.rows)⟩ := by
      simp
    change system.eliminate .below _ = _
    exact eliminate_of_reduced h.valid h.unique hwork hextract
  | gaussJordan =>
    have hshape : work.rows = system.rows ∧ work.cols = system.cols := rows_of_reduce hwork
    obtain ⟨-, hcols⟩ := isAugmented_iff.mp (validate_eq_ok_iff.mp h.valid).1
    have hextract : (Derivation.ofExcept (work.column work.rows) : Derivation α (List α)) =
        ⟨[], .ok work.rhsPart⟩ := by
      rw [column_eq_rhsPart (by omega)]
      rfl
    change system.eliminate .all _ = _
    exact eliminate_of_reduced h.valid h.unique hwork hextract
  | inverseMatrix =>
    change system.inverseMatrix = _
    rw [inverseMatrix_eq h.valid, applyInverse_of_unique h.unique (h.determinant rfl),
      invert_of_ok system.isSquare_coefficientPart hwork, rows_coefficientPart,
      Derivation.bind_of_ok rfl, multiply_rightHalf]
    simp [openingSteps, startMatrix, readingSteps, readOff, reduction, Method.sweep,
      Derivation.ofExcept_bind_of_ok rfl]

theorem strategy_of_stuck {e : Error} (h : Starts system method)
    (he : (system.reduction method).outcome = .error e) :
    system.strategy method =
      ⟨system.openingSteps method ++ .snapshot .initial (system.startMatrix method) ::
          (system.reduction method).steps, .error e⟩ := by
  cases method with
  | gauss =>
    change system.eliminate .below _ = _
    exact eliminate_of_stuck h.valid h.unique he
  | gaussJordan =>
    change system.eliminate .all _ = _
    exact eliminate_of_stuck h.valid h.unique he
  | inverseMatrix =>
    change system.inverseMatrix = _
    rw [inverseMatrix_eq h.valid, applyInverse_of_unique h.unique (h.determinant rfl),
      invert_of_error system.isSquare_coefficientPart he, Derivation.bind_of_error rfl]
    rfl

theorem strategy_of_invalid {e : Error} (h : system.validate = .error e) (method : Method) :
    system.strategy method = ⟨[], .error e⟩ := by
  cases method with
  | gauss =>
    change system.eliminate .below _ = _
    rw [eliminate, h]
    rfl
  | gaussJordan =>
    change system.eliminate .all _ = _
    rw [eliminate, h]
    rfl
  | inverseMatrix =>
    change system.inverseMatrix = _
    rw [inverseMatrix, h]
    rfl

theorem strategy_of_singular (hvalid : system.validate = .ok ())
    (hdet : isNearZero system.coefficientDeterminant = true) :
    system.strategy .inverseMatrix =
      ⟨system.openingSteps .inverseMatrix, .error .singularMatrix⟩ := by
  change system.inverseMatrix = _
  rw [inverseMatrix_eq hvalid, applyInverse, if_pos hdet]
  rfl

theorem strategy_of_not_unique (hvalid : system.validate = .ok ())
    (hne : system.classification.status ≠ .unique)
    (hdet : method = .inverseMatrix → isNearZero system.coefficientDeterminant = false) :
    system.strategy method =
      ⟨system.openingSteps method, .ok (.stopped system.classification.status)⟩ := by
  cases method with
  | gauss =>
    change system.eliminate .below _ = _
    rw [eliminate_eq hvalid, if_neg hne]
    rfl
  | gaussJordan =>
    change system.eliminate .all _ = _
    rw [eliminate_eq hvalid, if_neg hne]
    rfl
  | inverseMatrix =>
    change system.inverseMatrix = _
    rw [inverseMatrix_eq hvalid, applyInverse, hdet rfl, if_neg Bool.false_ne_true, if_neg hne]
    rfl

theorem strategy_of_not_starts (h : ¬ Starts system method) :
    (∃ e, system.validate = .error e ∧ system.strategy method = ⟨[], .error e⟩) ∨
      (system.validate = .ok () ∧ method = .inverseMatrix ∧
        isNearZero system.coefficientDeterminant = true ∧
        system.strategy method = ⟨system.openingSteps method, .error .singularMatrix⟩) ∨
      (system.validate = .ok () ∧ system.classification.status ≠ .unique ∧
        (method = .inverseMatrix → isNearZero system.coefficientDeterminant = false) ∧
        system.strategy method =
          ⟨system.openingSteps method, .ok (.stopped system.classification.status)⟩) := by
  cases hvalid : system.validate with
  | error e => exact .inl ⟨e, rfl, strategy_of_invalid hvalid method⟩
  | ok u =>
    by_cases hdet : method = .inverseMatrix → isNearZero system.coefficientDeterminant = false
    · have hne : system.classification.status ≠ .unique :=
        fun hunique => h ⟨hvalid, hunique, hdet⟩
      exact .inr (.inr ⟨rfl, hne, hdet, strategy_of_not_unique hvalid hne hdet⟩)
    · obtain ⟨rfl, hnear⟩ := Classical.not_imp.mp hdet
      rw [Bool.not_eq_false] at hnear
      exact .inr (.inl ⟨rfl, rfl, hnear, strategy_of_singular hvalid hnear⟩)

/-! ## What follows a strategy -/

theorem attempt_of_failed {e : Error} (h : (system.strategy method).outcome = .error e) :
    system.attempt method = ⟨(system.strategy method).steps ++ [.failed e.message], .error e⟩ := by
  simp only [attempt, Derivation.bind_of_error h]

theorem attempt_eq_of_stopped {s : Status}
    (h : (system.strategy method).outcome = .ok (.stopped s)) :
    system.attempt method = ⟨(system.strategy method).steps, .ok (.stopped s)⟩ := by
  simp [attempt, Derivation.bind_of_ok h, verdict]

theorem verdict_of_checked {x : List α} {r : α} (h : (system.check x).outcome = .ok r) :
    system.verdict (.candidate x) = ⟨(system.check x).steps, .ok (.solved x r)⟩ := by
  rw [verdict, Derivation.bind_of_ok h]
  simp

theorem attempt_of_checked {x : List α} {r : α}
    (hx : (system.strategy method).outcome = .ok (.candidate x))
    (hr : (system.check x).outcome = .ok r) :
    system.attempt method =
      ⟨(system.strategy method).steps ++ (system.check x).steps, .ok (.solved x r)⟩ := by
  simp only [attempt, Derivation.bind_of_ok hx, verdict_of_checked hr]

theorem attempt_of_refused {x : List α} {e : Error}
    (hx : (system.strategy method).outcome = .ok (.candidate x))
    (he : (system.check x).outcome = .error e) :
    system.attempt method =
      ⟨(system.strategy method).steps ++ ((system.check x).steps ++ [.failed e.message]),
        .error e⟩ := by
  simp [attempt, Derivation.bind_of_ok hx, verdict, Derivation.bind_of_error he]

theorem inPhase_checkResiduals (system : DenseMatrix α) (rs : List α) (row : ℕ) (worst : α) :
    InPhase .closing (system.checkResiduals row worst rs).steps := by
  induction rs generalizing row worst with
  | nil => exact inPhase_nil _
  | cons r rs ih =>
    simp only [checkResiduals]
    by_cases hr : Scalar.isFinite (Scalar.abs r) = true
    · rw [if_pos hr]
      exact InPhase.cons rfl (ih _ _)
    · rw [if_neg hr]
      exact inPhase_nil _

theorem inPhase_check (system : DenseMatrix α) (x : List α) :
    InPhase .closing (system.check x).steps := by
  unfold check
  split_ifs
  · refine InPhase.cons rfl ?_
    cases hr : system.residuals x with
    | ok rs => exact system.inPhase_checkResiduals rs 0 0
    | error e => exact inPhase_nil _
  · exact inPhase_nil _

/-- A strategy is only followed by closing steps. -/
theorem steps_attempt (system : DenseMatrix α) (method : Method) :
    ∃ closing, (system.attempt method).steps = (system.strategy method).steps ++ closing ∧
      InPhase .closing closing := by
  have hfailed (e : Error) : InPhase .closing ([.failed e.message] : List (Step α)) :=
    InPhase.cons rfl (inPhase_nil _)
  cases hstrategy : (system.strategy method).outcome with
  | error e =>
    rw [attempt_of_failed hstrategy]
    exact ⟨_, rfl, hfailed e⟩
  | ok finding =>
    cases finding with
    | stopped s =>
      rw [attempt_eq_of_stopped hstrategy]
      exact ⟨[], (List.append_nil _).symm, inPhase_nil _⟩
    | candidate x =>
      cases hcheck : (system.check x).outcome with
      | ok r =>
        rw [attempt_of_checked hstrategy hcheck]
        exact ⟨_, rfl, system.inPhase_check x⟩
      | error e =>
        rw [attempt_of_refused hstrategy hcheck]
        exact ⟨_, rfl, (system.inPhase_check x).append (hfailed e)⟩

/-- The record of a method that starts goes through all phases, as far as it comes. -/
theorem steps_attempt_of_starts (h : Starts system method) :
    ∃ reading closing, (system.attempt method).steps =
        system.openingSteps method ++ .snapshot .initial (system.startMatrix method) ::
          ((system.reduction method).steps ++ (reading ++ closing)) ∧
      InPhase .reading reading ∧ InPhase .closing closing := by
  obtain ⟨closing, hsteps, hclosing⟩ := system.steps_attempt method
  cases hreduction : (system.reduction method).outcome with
  | ok work =>
    refine ⟨system.readingSteps work method, closing, ?_,
      system.inPhase_readingSteps work method, hclosing⟩
    rw [hsteps, strategy_of_reduced h hreduction]
    simp
  | error e =>
    refine ⟨[], closing, ?_, inPhase_nil _, hclosing⟩
    rw [hsteps, strategy_of_stuck h hreduction]
    simp

theorem steps_attempt_of_not_starts (h : ¬ Starts system method) :
    ∃ opening closing, (system.attempt method).steps = opening ++ closing ∧
      InPhase .opening opening ∧ InPhase .closing closing := by
  obtain ⟨closing, hsteps, hclosing⟩ := system.steps_attempt method
  refine ⟨_, closing, hsteps, ?_, hclosing⟩
  rcases strategy_of_not_starts h with ⟨e, -, hs⟩ | ⟨-, -, -, hs⟩ | ⟨-, -, -, hs⟩ <;> rw [hs]
  · exact inPhase_nil _
  · exact system.inPhase_openingSteps method
  · exact system.inPhase_openingSteps method

theorem phase_ne_closing_of_mem_strategy {step : Step α}
    (h : step ∈ (system.strategy method).steps) : step.phase ≠ .closing := by
  intro hphase
  have habsent {phase : Phase} {steps : List (Step α)} (hs : InPhase phase steps)
      (hne : phase ≠ .closing) : step ∉ steps :=
    hs.notMem (by rw [hphase]; exact hne.symm)
  have hopening := habsent (system.inPhase_openingSteps method) (by decide)
  by_cases hstarts : Starts system method
  · have hreduction := habsent (system.inPhase_reduction method) (by decide)
    have hinitial : step ≠ .snapshot .initial (system.startMatrix method) := by
      rintro rfl
      cases hphase
    cases houtcome : (system.reduction method).outcome with
    | ok work =>
      have hreading := habsent (system.inPhase_readingSteps work method) (by decide)
      rw [strategy_of_reduced hstarts houtcome] at h
      simp [hopening, hreduction, hinitial, hreading] at h
    | error e =>
      rw [strategy_of_stuck hstarts houtcome] at h
      simp [hopening, hreduction, hinitial] at h
  · rcases strategy_of_not_starts hstarts with ⟨e, -, hs⟩ | ⟨-, -, -, hs⟩ | ⟨-, -, -, hs⟩ <;>
      rw [hs] at h
    · exact List.not_mem_nil h
    · exact hopening h
    · exact hopening h

theorem reduced_of_candidate {x : List α}
    (h : (system.strategy method).outcome = .ok (.candidate x)) :
    Starts system method ∧ ∃ work, (system.reduction method).outcome = .ok work ∧
      x = system.readOff work method := by
  by_cases hstarts : Starts system method
  · cases hreduction : (system.reduction method).outcome with
    | ok work =>
      rw [strategy_of_reduced hstarts hreduction] at h
      cases h
      exact ⟨hstarts, work, rfl, rfl⟩
    | error e =>
      rw [strategy_of_stuck hstarts hreduction] at h
      cases h
  · rcases strategy_of_not_starts hstarts with ⟨e, -, hs⟩ | ⟨-, -, -, hs⟩ | ⟨-, -, -, hs⟩ <;>
      rw [hs] at h <;> cases h

end DenseMatrix

section Reports

variable {α : Type} [Scalar α]

theorem trace_solve (system : DenseMatrix α) (method : Method) (traced : Bool) :
    (solve system method traced).trace =
      if traced then some ⟨true, (system.attempt method).steps⟩ else none := by
  unfold solve Report.ofDerivation
  cases (system.attempt method).outcome with
  | ok verdict => cases verdict <;> rfl
  | error e => rfl

theorem solved_of_solution_eq_some {system : DenseMatrix α} {method : Method} {traced : Bool}
    {x : List α} (h : (solve system method traced).solution = some x) :
    ∃ r, (system.attempt method).outcome = .ok (.solved x r) := by
  cases hrun : (system.attempt method).outcome with
  | ok verdict =>
    cases verdict with
    | solved y r =>
      rw [solve_of_solved traced hrun] at h
      cases h
      exact ⟨r, rfl⟩
    | stopped s =>
      rw [solve_of_stopped traced hrun] at h
      cases h
  | error e =>
    rw [solve_of_failed traced hrun] at h
    cases h

end Reports

end DenseSystem
