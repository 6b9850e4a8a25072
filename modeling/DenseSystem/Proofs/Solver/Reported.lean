import Mathlib
import DenseSystem.Proofs.Solver.Residuals

/-! # Reported residuals

The check of a candidate passes over its residuals one by one and keeps the largest magnitude. It
stops at the first residual that is not finite, so that it never keeps NaN and its result is the
largest of all magnitudes whenever it has one.
-/
namespace DenseSystem

namespace DenseMatrix

variable {α : Type} [Scalar α] {system : DenseMatrix α} {method : Method}
  {x passed rest rs : List α} {r : α}

/-! ## The check -/

/-- NaN only makes a difference to the largest value where there is one. -/
theorem largest_eq_worstResidual (h : ∀ r ∈ rs, Scalar.isNaN (Scalar.abs r) = false) :
    largest (rs.map Scalar.abs) = worstResidual 0 rs := by
  rw [largest, List.foldl_map]
  refine List.foldl_ext _ _ 0 fun worst r hr => ?_
  rw [h r hr, Bool.false_or]

/-- The residuals before the first infinite one are recorded. -/
theorem checkResiduals_of_infinite (system : DenseMatrix α)
    (hpassed : ∀ s ∈ passed, Scalar.isFinite (Scalar.abs s) = true)
    (hr : Scalar.isFinite (Scalar.abs r) = false) (row : ℕ) (worst : α) :
    system.checkResiduals row worst (passed ++ r :: rest) =
      ⟨system.residualSteps row passed, .error (.nonFinite .residual)⟩ := by
  induction passed generalizing row worst with
  | nil =>
    rw [List.nil_append, checkResiduals]
    exact if_neg (by simp [hr])
  | cons s passed ih =>
    obtain ⟨hs, hpassed⟩ := List.forall_mem_cons.mp hpassed
    rw [List.cons_append, checkResiduals]
    simp only [hs, if_true, ih hpassed]
    rfl

theorem check_eq (hx : x.all Scalar.isFinite = true) (hrs : system.residuals x = .ok rs) :
    system.check x = ⟨.solutionExtracted x :: (system.checkResiduals 0 0 rs).steps,
      (system.checkResiduals 0 0 rs).outcome⟩ := by
  rw [check, if_pos hx, hrs, Derivation.ofExcept_bind_of_ok rfl]
  rfl

/-! ## Candidates -/

section Candidates

variable (hcandidate : (system.strategy method).outcome = .ok (.candidate x))
include hcandidate

theorem residuals_of_candidate :
    ∃ rs, system.residuals x = .ok rs ∧ rs.length = system.rows := by
  obtain ⟨haug, -⟩ := validate_eq_ok_iff.mp (validate_of_candidate hcandidate)
  exact ⟨_, residuals_eq haug (length_of_candidate hcandidate), by simp⟩

theorem attempt_of_passed (hx : x.all Scalar.isFinite = true) (hrs : system.residuals x = .ok rs)
    (h : ∀ r ∈ rs, Scalar.isFinite (Scalar.abs r) = true) :
    system.attempt method =
      ⟨(system.strategy method).steps ++ .solutionExtracted x :: system.residualSteps 0 rs,
        .ok (.solved x (worstResidual 0 rs))⟩ := by
  have hcheck := check_eq hx hrs
  rw [checkResiduals_of_isFinite system h] at hcheck
  rw [attempt_of_checked hcandidate (congrArg Derivation.outcome hcheck), hcheck]

theorem attempt_of_infinite (hx : x.all Scalar.isFinite = true)
    (hrs : system.residuals x = .ok (passed ++ r :: rest))
    (hpassed : ∀ s ∈ passed, Scalar.isFinite (Scalar.abs s) = true)
    (hr : Scalar.isFinite (Scalar.abs r) = false) :
    system.attempt method =
      ⟨(system.strategy method).steps ++ .solutionExtracted x :: (system.residualSteps 0 passed ++
          [.failed (Error.nonFinite .residual).message]),
        .error (.nonFinite .residual)⟩ := by
  have hcheck := check_eq hx hrs
  rw [checkResiduals_of_infinite system hpassed hr] at hcheck
  rw [attempt_of_refused hcandidate (congrArg Derivation.outcome hcheck), hcheck]
  rfl

theorem report_of_passed (hx : x.all Scalar.isFinite = true) (hrs : system.residuals x = .ok rs)
    (h : ∀ r ∈ rs, Scalar.isFinite (Scalar.abs r) = true) (traced : Bool) :
    let report := solve system method traced
    report.status = .unique ∧ report.solution = some x ∧
      report.maxResidual = some (worstResidual 0 rs) ∧
      (traced = true → report.trace = some ⟨true, (system.strategy method).steps ++
        .solutionExtracted x :: system.residualSteps 0 rs⟩) := by
  have hattempt := attempt_of_passed hcandidate hx hrs h
  have hreport := solve_of_solved traced (congrArg Derivation.outcome hattempt)
  refine ⟨congrArg Report.status hreport, congrArg Report.solution hreport,
    congrArg Report.maxResidual hreport, fun htraced => ?_⟩
  rw [trace_solve, if_pos htraced, hattempt]

theorem report_of_infinite (hx : x.all Scalar.isFinite = true)
    (hrs : system.residuals x = .ok (passed ++ r :: rest))
    (hpassed : ∀ s ∈ passed, Scalar.isFinite (Scalar.abs s) = true)
    (hr : Scalar.isFinite (Scalar.abs r) = false) (traced : Bool) :
    let report := solve system method traced
    report.status = .error ∧ report.error = some (Error.nonFinite .residual).message ∧
      (traced = true → report.trace = some ⟨true, (system.strategy method).steps ++
        .solutionExtracted x :: (system.residualSteps 0 passed ++
          [.failed (Error.nonFinite .residual).message])⟩) := by
  have hattempt := attempt_of_infinite hcandidate hx hrs hpassed hr
  obtain ⟨hstatus, herror⟩ := solve_of_error traced (congrArg Derivation.outcome hattempt)
  refine ⟨hstatus, herror, fun htraced => ?_⟩
  rw [trace_solve, if_pos htraced, hattempt]

/-- A unique solution is reported of a candidate that passes the check, and of no other. -/
theorem status_eq_unique_iff (hrs : system.residuals x = .ok rs) (traced : Bool) :
    (solve system method traced).status = .unique ↔
      x.all Scalar.isFinite = true ∧ ∀ r ∈ rs, Scalar.isFinite (Scalar.abs r) = true := by
  constructor
  · intro hunique
    obtain ⟨y, worst, hsolved⟩ := solved_of_status_eq_unique hunique
    -- The vector that was checked is the only candidate.
    cases hcandidate.symm.trans (attempt_eq_solved hsolved).1
    obtain ⟨haug, -⟩ := validate_eq_ok_iff.mp (validate_of_candidate hcandidate)
    obtain ⟨hx, hresiduals, -⟩ := checked_of_solved hsolved
    cases (residuals_eq haug (length_of_candidate hcandidate)).symm.trans hrs
    rw [List.forall_mem_map]
    exact ⟨hx, fun i hi => hresiduals i (List.mem_range.mp hi)⟩
  · rintro ⟨hx, h⟩
    exact (report_of_passed hcandidate hx hrs h traced).1

end Candidates

end DenseMatrix

open DenseMatrix

deriving instance DecidableEq for Finding

/-- Take any vector that a method reads off a system. A unique solution is reported if and only if
the vector is finite and so is the largest residual of it. Then the report tells both, and its trace
ends with the vector and the residuals of all equations, whose largest magnitude was told. Nothing
before belongs to a check. Where a residual of a finite vector is the first that is not finite, the
report tells so, and its trace ends with the residuals before and the failure. -/
theorem report_of_candidate {system : DenseMatrix Float} {method : Method} {x : List Float}
    (hcandidate : (system.strategy method).outcome = .ok (.candidate x)) (traced : Bool) :
    let report := solve system method traced
    let before := (system.strategy method).steps
    (∀ step ∈ before, step.phase ≠ .closing) ∧
    ∃ rs worst, system.residuals x = .ok rs ∧ rs.length = system.rows ∧
      system.maxResidual x = .ok worst ∧
      (report.status = .unique ↔ (∀ v ∈ x, v.isFinite = true) ∧ worst.isFinite = true) ∧
      (report.status = .unique →
        report.solution = some x ∧ report.maxResidual = some worst ∧
        Double.IsLargestMagnitude worst rs ∧
        (traced = true → report.trace =
          some ⟨true, before ++ .solutionExtracted x :: system.residualSteps 0 rs⟩)) ∧
      ∀ passed r rest, (∀ v ∈ x, v.isFinite = true) → rs = passed ++ r :: rest →
        (∀ s ∈ passed, s.isFinite = true) → r.isFinite = false →
        report.status = .error ∧
        report.error = some "non-finite value encountered in residual" ∧
        (traced = true → report.trace =
          some ⟨true, before ++ .solutionExtracted x :: (system.residualSteps 0 passed ++
            [.failed "non-finite value encountered in residual"])⟩) := by
  intro report before
  obtain ⟨rs, hrs, hcount⟩ := residuals_of_candidate hcandidate
  have hworst : system.maxResidual x = .ok (largest (rs.map Scalar.abs)) := by
    rw [maxResidual_eq, hrs]
    rfl
  have hvalues : x.all Scalar.isFinite = true ↔ ∀ v ∈ x, v.isFinite = true := List.all_eq_true
  have hstatus : report.status = .unique ↔ (∀ v ∈ x, v.isFinite = true) ∧
      (largest (rs.map Scalar.abs)).isFinite = true := by
    have hfinite := Double.isFinite_largest_abs_iff rs
    rw [status_eq_unique_iff hcandidate hrs traced, hvalues]
    simp only [Double.isFinite_scalarAbs]
    exact and_congr_right fun _ => hfinite.symm
  refine ⟨fun step => phase_ne_closing_of_mem_strategy, rs, _, hrs, hcount, hworst, hstatus, ?_, ?_⟩
  · intro hunique
    obtain ⟨hx, hall⟩ := (status_eq_unique_iff hcandidate hrs traced).mp hunique
    obtain ⟨-, hsolution, hmax, htrace⟩ := report_of_passed hcandidate hx hrs hall traced
    have hne : rs ≠ [] := by
      obtain ⟨haug, -⟩ := validate_eq_ok_iff.mp (validate_of_candidate hcandidate)
      obtain ⟨hpos, -⟩ := isAugmented_iff.mp haug
      rw [← List.length_pos_iff, hcount]
      exact hpos
    have hsame : largest (rs.map Scalar.abs) = worstResidual 0 rs :=
      largest_eq_worstResidual fun r hr => Double.isNaN_of_isFinite (hall r hr)
    exact ⟨hsolution, hsame ▸ hmax, Double.isLargestMagnitude_largest hne, htrace⟩
  · intro passed r rest hx hsplit hpassed hr
    rw [hsplit] at hrs
    exact report_of_infinite hcandidate (hvalues.mpr hx) hrs
      (fun s hs => (Double.isFinite_scalarAbs s).trans (hpassed s hs))
      ((Double.isFinite_scalarAbs r).trans hr) traced

/-- A system whose solution is told with its largest residual, and one whose last equation has an
infinite residual, as the sum of its first two products is infinite. -/
theorem report_of_overflowing_candidate :
    let system : DenseMatrix Float := ⟨2, 3, #[2, 1, 3, 1, 3, 5], rfl⟩
    let large : Float := 1.7976931348623157e308
    let overflowing : DenseMatrix Float :=
      ⟨3, 4, #[1, 0, 0, large, 0, 1, 0, large, 1, 1, 1, large], rfl⟩
    (∃ worst, system.maxResidual [0.8, 1.4] = .ok worst ∧
      (solve system .gauss false).solution = some [0.8, 1.4] ∧
      (solve system .gauss false).maxResidual = some worst) ∧
    (overflowing.strategy .gauss).outcome = .ok (.candidate [large, large, -large]) ∧
    (solve overflowing .gauss true).error = some "non-finite value encountered in residual" ∧
    (solve overflowing .gauss true).trace = some ⟨true, (overflowing.strategy .gauss).steps ++
      [.solutionExtracted [large, large, -large], .residual 0 large large 0,
        .residual 1 large large 0, .failed "non-finite value encountered in residual"]⟩ := by
  intro system large overflowing
  have hcandidate : (overflowing.strategy .gauss).outcome =
      .ok (.candidate [large, large, -large]) := by decide +kernel
  have hresiduals : overflowing.residuals [large, large, -large] = .ok [0, 0, 1 / 0] := by
    decide +kernel
  have hsolved : (system.strategy .gauss).outcome = .ok (.candidate [0.8, 1.4]) := by
    decide +kernel
  obtain ⟨-, rs, worst, -, -, hworst, -, hreported, -⟩ := report_of_candidate hsolved false
  obtain ⟨-, rs', worst', hrs, -, -, -, -, hrefused⟩ := report_of_candidate hcandidate true
  cases hresiduals.symm.trans hrs
  obtain ⟨hsolution, hmax, -⟩ := hreported (by decide +kernel)
  obtain ⟨-, herror, htrace⟩ := hrefused [0, 0] (1 / 0) [] (by decide +kernel) rfl
    (by decide +kernel) (by decide +kernel)
  refine ⟨⟨worst, hworst, hsolution, hmax⟩, hcandidate, herror, ?_⟩
  have hsum : large + 0 = large := by decide +kernel
  have hsteps : overflowing.residualSteps 0 [0, 0] =
      [.residual 0 large large 0, .residual 1 large large 0] := by
    change [Step.residual 0 (large + 0) large (Scalar.abs 0),
      .residual 1 (large + 0) large (Scalar.abs 0)] = _
    rw [hsum, Double.abs_zero]
  rw [htrace rfl, hsteps]
  rfl

end DenseSystem
