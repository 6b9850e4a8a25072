import Mathlib.Tactic
import DenseSystem.Proofs.Threaded.Solver

/-! # Runs with and without a trace

Of two runs on the same system only one may record its steps. They agree in all that they report and
tell, but for the trace. An inversion whose steps nobody sees likewise agrees with what is recorded
when a system is solved by its inverse.
-/
namespace DenseSystem

namespace DenseMatrix

variable {α : Type} [Scalar α] {system : DenseMatrix α} {method : Method} {x : List α} {k : ℕ}

/-! ## The last step -/

theorem failed_notMem_check (system : DenseMatrix α) (x : List α) (message : String) :
    .failed message ∉ (system.check x).steps := by
  have hresiduals (rs : List α) (row : ℕ) (worst : α) :
      .failed message ∉ (system.checkResiduals row worst rs).steps := by
    induction rs generalizing row worst with
    | nil => exact List.not_mem_nil
    | cons r rs ih =>
      rw [checkResiduals]
      dsimp only
      by_cases hr : Scalar.isFinite (Scalar.abs r) = true
      · rw [if_pos hr]
        exact List.not_mem_cons_of_ne_of_not_mem (by simp) (ih _ _)
      · rw [if_neg hr]
        exact List.not_mem_nil
  unfold check
  split_ifs
  · refine List.not_mem_cons_of_ne_of_not_mem (by simp) ?_
    cases system.residuals x with
    | ok rs => exact hresiduals rs 0 0
    | error e => exact List.not_mem_nil
  · exact List.not_mem_nil

theorem getLast?_attempt_eq_failed_iff {message : String} :
    (system.attempt method).steps.getLast? = some (.failed message) ↔
      ∃ e, (system.attempt method).outcome = .error e ∧ e.message = message := by
  have hstrategy : .failed message ∉ (system.strategy method).steps :=
    fun hmem => phase_ne_closing_of_mem_strategy hmem rfl
  cases hrun : (system.strategy method >>= system.verdict).outcome with
  | error e =>
    simp [attempt, hrun]
  | ok verdict =>
    have hnotMem : .failed message ∉ (system.attempt method).steps := by
      simp only [attempt, hrun]
      obtain ⟨finding, -, hverdict, hsteps⟩ := Derivation.bind_eq_ok hrun
      rw [hsteps]
      cases finding with
      | stopped status => exact List.not_mem_append hstrategy List.not_mem_nil
      | candidate x =>
        obtain ⟨r, hr, -⟩ := Derivation.outcome_bind_eq_ok_iff.mp hverdict
        rw [verdict_of_checked hr]
        exact List.not_mem_append hstrategy (failed_notMem_check system x message)
    have houtcome : (system.attempt method).outcome = .ok verdict := by
      simp only [attempt, hrun]
    rw [houtcome]
    refine iff_of_false (fun hlast => hnotMem (List.mem_of_getLast? hlast)) ?_
    rintro ⟨e, he, -⟩
    cases he

/-! ## Recorded inverses -/

theorem inverse_of_mem_attempt {inverse : DenseMatrix α}
    (h : .inverse inverse ∈ (system.attempt .inverseMatrix).steps) :
    system.coefficients = .ok system.coefficientPart ∧
      system.coefficientPart.inverse = .ok inverse := by
  obtain ⟨closing, hsteps, hclosing⟩ := system.steps_attempt .inverseMatrix
  have hphase : (.inverse inverse : Step α).phase = .reading := rfl
  have hopening := (system.inPhase_openingSteps .inverseMatrix).notMem (hphase.trans_ne (by decide))
  have hreduction := (system.inPhase_reduction .inverseMatrix).notMem (hphase.trans_ne (by decide))
  have hclosing' := hclosing.notMem (hphase.trans_ne (by decide))
  rw [hsteps] at h
  by_cases hstarts : Starts system .inverseMatrix
  · refine ⟨coefficients_of_isAugmented (validate_eq_ok_iff.mp hstarts.valid).1, ?_⟩
    cases houtcome : (system.reduction .inverseMatrix).outcome with
    | error e =>
      rw [strategy_of_stuck hstarts houtcome] at h
      simp [hopening, hreduction, hclosing'] at h
    | ok work =>
      rw [strategy_of_reduced hstarts houtcome] at h
      have hrecorded : inverse = work.rightHalf system.rows := by
        simpa [readingSteps, hopening, hreduction, hclosing'] using h
      rw [hrecorded, DenseMatrix.inverse, invert_of_ok system.isSquare_coefficientPart houtcome]
      rfl
  · rcases strategy_of_not_starts hstarts with ⟨e, -, hs⟩ | ⟨-, -, -, hs⟩ | ⟨-, -, -, hs⟩ <;>
      rw [hs] at h <;> simp [hopening, hclosing'] at h

theorem validate_ne_zeroPivot (system : DenseMatrix α) :
    system.validate ≠ .error (.zeroPivot k) := by
  unfold validate checkAugmented checkFinite
  cases system.isAugmented <;> cases system.isFinite <;> simp [bind, Except.bind]

/-- An attempt by the inverse that lacks a pivot is an inversion that lacks it. -/
theorem inverse_of_stuck_attempt
    (h : (system.attempt .inverseMatrix).outcome = .error (.zeroPivot k)) :
    system.coefficients = .ok system.coefficientPart ∧
      system.coefficientPart.inverse = .error (.zeroPivot k) := by
  have hvalid : system.validate = .ok () := by
    cases hvalid : system.validate with
    | ok u => rfl
    | error e =>
      rw [attempt_of_failed (by rw [strategy_of_invalid hvalid])] at h
      cases h
      exact absurd hvalid system.validate_ne_zeroPivot
  refine ⟨coefficients_of_isAugmented (validate_eq_ok_iff.mp hvalid).1, ?_⟩
  rw [inverse_eq_error_iff system.isSquare_coefficientPart]
  exact (attempt_eq_zeroPivot_iff hvalid |>.mp h).2

end DenseMatrix

namespace Threaded

theorem steps_of_solve {α : Type} [Scalar α] {system : DenseMatrix α} {method : Method}
    {report : Report α} {log : List (Event α)} {steps : List (Step α)}
    (h : solve system method true = ({ report with trace := some ⟨true, steps⟩ }, log)) :
    steps = (system.attempt method).steps := by
  have htrace := trace_solve system method true
  rw [solve_eq] at h
  rw [(Prod.mk.inj h).1] at htrace
  cases htrace
  rfl

/-- Whether its steps are recorded has no influence on an attempt. With and without a trace, the runs
report the same of any system of doubles, by any method, but for the trace itself, and they tell the
log the same events, and both do what the derivation says. The inverse of the coefficients that is
found with no trace is the one that the inverse method records, if it records one, and its
elimination lacks the same pivot if that is what the record of the method ends with. -/
theorem tracing_changes_trace_only (system : DenseMatrix Float) (method : Method) :
    ∃ (report : Report Float) (log : List (Event Float)) (steps : List (Step Float)),
      solve system method false = ({ report with trace := none }, log) ∧
      solve system method true = ({ report with trace := some ⟨true, steps⟩ }, log) ∧
      (∀ traced, solve system method traced =
        (DenseSystem.solve system method traced, solveLog system method)) ∧
      (∀ a : DenseMatrix Float, inverse a = a.inverse) ∧
      (method = .inverseMatrix →
        (∀ recorded, .inverse recorded ∈ steps →
          ∃ a, system.coefficients = .ok a ∧ inverse a = .ok recorded) ∧
        ∀ k, steps.getLast? = some (.failed s!"zero pivot in column {k + 1}") →
          ∃ a, system.coefficients = .ok a ∧ inverse a = .error (.zeroPivot k)) := by
  have hreport (traced : Bool) : DenseSystem.solve system method traced =
      { DenseSystem.solve system method false with
        trace := if traced then some ⟨true, (system.attempt method).steps⟩ else none } := by
    unfold DenseSystem.solve Report.ofDerivation
    cases (system.attempt method).outcome with
    | ok verdict => cases verdict <;> rfl
    | error e => rfl
  refine ⟨DenseSystem.solve system method false, solveLog system method,
    (system.attempt method).steps, ?_, ?_, solve_eq system method, inverse_eq, ?_⟩
  · rw [solve_eq, hreport]
    rfl
  · rw [solve_eq, hreport]
    rfl
  rintro rfl
  simp only [inverse_eq]
  constructor
  · intro recorded hrecorded
    exact ⟨_, DenseMatrix.inverse_of_mem_attempt hrecorded⟩
  · intro k hlast
    obtain ⟨e, he, hmessage⟩ := DenseMatrix.getLast?_attempt_eq_failed_iff.mp hlast
    obtain rfl := Error.message_eq_zeroPivot_iff.mp hmessage
    exact ⟨_, DenseMatrix.inverse_of_stuck_attempt he⟩

/-- One equation the inverse of which is recorded. Two equations with a determinant that is not near
zero and ranks that promise a unique solution, whose elimination ends in the second column. -/
theorem inverses_of_two_systems :
    let single : DenseMatrix Float := ⟨1, 2, #[2, 4], rfl⟩
    let stuck : DenseMatrix Float := ⟨2, 3, #[1400000, 1400000, 1, 900000, 900000, 0], rfl⟩
    (∃ steps recorded a, (solve single .inverseMatrix true).1.trace = some ⟨true, steps⟩ ∧
        .inverse recorded ∈ steps ∧ single.coefficients = .ok a ∧ inverse a = .ok recorded) ∧
      ∃ steps a, (solve stuck .inverseMatrix true).1.trace = some ⟨true, steps⟩ ∧
        steps.getLast? = some (.failed s!"zero pivot in column {1 + 1}") ∧
        stuck.coefficients = .ok a ∧ inverse a = .error (.zeroPivot 1) := by
  intro single stuck
  obtain ⟨report, log, steps, -, htraced, -, -, hinverse⟩ :=
    tracing_changes_trace_only single .inverseMatrix
  obtain ⟨report', log', steps', -, htraced', -, -, hinverse'⟩ :=
    tracing_changes_trace_only stuck .inverseMatrix
  have hrecorded : (single.attempt .inverseMatrix).steps.any
      (fun | .inverse _ => true | _ => false) = true := by decide +kernel
  have hstuck : (match (stuck.attempt .inverseMatrix).outcome with
      | .ok _ => false
      | .error e => decide (e = .zeroPivot 1)) = true := by decide +kernel
  constructor
  · obtain ⟨step, hmem, hstep⟩ := List.any_eq_true.mp hrecorded
    rw [← steps_of_solve htraced] at hmem
    cases step with
    | inverse recorded =>
      obtain ⟨a, ha, hrecorded⟩ := (hinverse rfl).1 recorded hmem
      exact ⟨steps, recorded, a, by rw [htraced], hmem, ha, hrecorded⟩
    | _ => cases hstep
  · have hlast : steps'.getLast? = some (.failed s!"zero pivot in column {1 + 1}") := by
      rw [steps_of_solve htraced', DenseMatrix.getLast?_attempt_eq_failed_iff]
      split at hstuck
      · cases hstuck
      · rename_i herror
        exact ⟨_, herror, congrArg Error.message (of_decide_eq_true hstuck)⟩
    obtain ⟨a, ha, hinverse⟩ := (hinverse' rfl).2 1 hlast
    exact ⟨steps', a, by rw [htraced'], hlast, ha, hinverse⟩

end Threaded

end DenseSystem
