import Mathlib.Tactic
import DenseSystem.Proofs.Double.Breakdown
import DenseSystem.Proofs.Double.Unpacked
import DenseSystem.Proofs.Guarded.Solver
import DenseSystem.Proofs.Solver.Course

/-! # Well-formed reports

Whatever the shape of a system and its entries, every method reports on it. What a report contains
depends on its status and its method, and its status is that of the classification or an error.
-/
namespace DenseSystem

namespace Double

open Float.Model

theorem zero_le_zero : (0 : Float) ≤ 0 := by decide +kernel

theorem zero_le_abs {x : Float} (h : Scalar.isFinite (Scalar.abs x) = true) :
    (0 : Float) ≤ Scalar.abs x := by
  have hzero : (0 : Float).toModel.unpack = .zero .positive := rfl
  have hle : ((0 : Float).toModel.unpack.le
      (Float.Model.pack x.toModel.unpack.abs).unpack) = true := by
    change (Float.Model.pack x.toModel.unpack.abs).unpack.isFinite = true at h
    rw [hzero]
    cases hx : x.toModel.unpack with
    | notANumber =>
      rw [hx] at h
      exact absurd h (by decide)
    | infinity s =>
      rw [hx] at h
      exact absurd h (by cases s <;> decide)
    | zero s =>
      change UnpackedFloat.le (.zero .positive)
        (Float.Model.pack (.zero .positive)).unpack = true
      decide
    | finite s m e hm =>
      -- A magnitude is packed, and unpacked again when it is compared.
      have habs : (UnpackedFloat.finite s m e hm).abs = .finite .positive m e hm := rfl
      rw [habs, unpack_pack (inRange_of_unpack hx)]
      rfl
  exact decide_eq_true hle

end Double

section Residuals

variable {α : Type} [Scalar α]

theorem worstResidual_mem (worst : α) (rs : List α) :
    DenseMatrix.worstResidual worst rs = worst ∨
      ∃ r ∈ rs, DenseMatrix.worstResidual worst rs = Scalar.abs r := by
  induction rs generalizing worst with
  | nil => exact .inl rfl
  | cons r rs ih =>
    have hstep : DenseMatrix.worstResidual worst (r :: rs) = DenseMatrix.worstResidual
        (if Scalar.lt worst (Scalar.abs r) then Scalar.abs r else worst) rs := rfl
    rw [hstep]
    split_ifs
    · rcases ih (Scalar.abs r) with h | ⟨s, hs, h⟩
      · exact .inr ⟨r, List.mem_cons_self, h⟩
      · exact .inr ⟨s, List.mem_cons_of_mem _ hs, h⟩
    · rcases ih worst with h | ⟨s, hs, h⟩
      · exact .inl h
      · exact .inr ⟨s, List.mem_cons_of_mem _ hs, h⟩

end Residuals

section Phases

variable {α : Type} {steps : List (Step α)}

theorem findSome?_determinant_eq_none (h : ∀ step ∈ steps, step.phase ≠ .opening) :
    steps.findSome? Step.determinant? = none := by
  rw [List.findSome?_eq_none_iff]
  intro step hstep
  cases step with
  | determinant d => exact absurd rfl (h _ hstep)
  | _ => rfl

theorem InPhase.ne_opening {phase : Phase} (h : InPhase phase steps)
    (hne : phase ≠ .opening) : ∀ step ∈ steps, step.phase ≠ .opening :=
  fun step hstep => (h step hstep).trans_ne hne

end Phases

namespace DenseMatrix

variable {α : Type} [Scalar α] {system : DenseMatrix α} {method : Method}

theorem validate_of_strategy {f : Finding α} (h : (system.strategy method).outcome = .ok f) :
    system.validate = .ok () := by
  cases hvalid : system.validate with
  | ok u => rfl
  | error e =>
    rw [strategy_of_invalid hvalid] at h
    cases h

/-- The record of an accepted system opens with what is known of the whole matrix. -/
theorem steps_strategy_of_valid (hvalid : system.validate = .ok ()) (method : Method) :
    ∃ rest, (system.strategy method).steps = system.openingSteps method ++ rest ∧
      ∀ step ∈ rest, step.phase ≠ .opening := by
  by_cases hstarts : Starts system method
  · have hreduction := (system.inPhase_reduction method).ne_opening (by decide)
    cases houtcome : (system.reduction method).outcome with
    | ok work =>
      have hreading := (system.inPhase_readingSteps work method).ne_opening (by decide)
      rw [strategy_of_reduced hstarts houtcome]
      exact ⟨_, rfl, List.forall_mem_cons.mpr
        ⟨by simp [Step.phase], List.forall_mem_append.mpr ⟨hreduction, hreading⟩⟩⟩
    | error e =>
      rw [strategy_of_stuck hstarts houtcome]
      exact ⟨_, rfl, List.forall_mem_cons.mpr ⟨by simp [Step.phase], hreduction⟩⟩
  · rcases strategy_of_not_starts hstarts with ⟨e, he, -⟩ | ⟨-, -, -, hs⟩ | ⟨-, -, -, hs⟩
    · rw [hvalid] at he
      cases he
    · exact ⟨[], by rw [hs, List.append_nil], by simp⟩
    · exact ⟨[], by rw [hs, List.append_nil], by simp⟩

/-- A determinant is recorded by the inverse method once the system is accepted. -/
theorem determinant_attempt (system : DenseMatrix α) (method : Method) :
    (system.attempt method).steps.findSome? Step.determinant? =
      if method = .inverseMatrix ∧ system.validate = .ok () then
        some system.coefficientDeterminant
      else none := by
  obtain ⟨closing, hsteps, hclosing⟩ := system.steps_attempt method
  have hclosing' := hclosing.ne_opening (by decide)
  cases hvalid : system.validate with
  | error e =>
    rw [hsteps, strategy_of_invalid hvalid, if_neg (by simp)]
    exact findSome?_determinant_eq_none hclosing'
  | ok u =>
    obtain ⟨rest, hrest, hphase⟩ := steps_strategy_of_valid hvalid method
    have hnone : (rest ++ closing).findSome? Step.determinant? = none :=
      findSome?_determinant_eq_none (List.forall_mem_append.mpr ⟨hphase, hclosing'⟩)
    rw [hsteps, hrest, List.append_assoc]
    cases method with
    | inverseMatrix => rfl
    | _ => exact hnone

end DenseMatrix

structure Report.WellFormed (report : Report Float) (system : DenseMatrix Float) (method : Method)
    (traced : Bool) : Prop where
  method_eq : report.method = method
  solution_iff : report.solution.isSome = true ↔ report.status = .unique
  maxResidual_iff : report.maxResidual.isSome = true ↔ report.status = .unique
  error_iff : report.error.isSome = true ↔ report.status = .error
  trace_iff : report.trace.isSome = true ↔ traced = true
  determinant_iff : report.determinant.isSome = true ↔
    method = .inverseMatrix ∧ system.isAugmented = true ∧ system.isFinite = true
  solution_finite : ∀ x, report.solution = some x →
    x.length = system.rows ∧ ∀ v ∈ x, v.isFinite = true
  maxResidual_finite : ∀ r, report.maxResidual = some r → r.isFinite = true ∧ 0 ≤ r
  stopped : report.status = .infinite ∨ report.status = .none →
    ∃ c, classify system = .ok c ∧ c.status = report.status
  unique : report.status = .unique → system.isAugmented = true ∧ system.isFinite = true ∧
    ∃ c, classify system = .ok c ∧ c.status = .unique
  refused : ¬ (system.isAugmented = true ∧ system.isFinite = true) → report.status = .error

section Reports

variable {system : DenseMatrix Float} {method : Method} {traced : Bool}

theorem determinant_solve (system : DenseMatrix Float) (method : Method) (traced : Bool) :
    (solve system method traced).determinant.isSome = true ↔
      method = .inverseMatrix ∧ system.isAugmented = true ∧ system.isFinite = true := by
  have hdeterminant : (solve system method traced).determinant =
      (system.attempt method).steps.findSome? Step.determinant? := by
    unfold solve Report.ofDerivation
    cases (system.attempt method).outcome with
    | ok verdict => cases verdict <;> rfl
    | error e => rfl
  rw [hdeterminant, DenseMatrix.determinant_attempt, ← DenseMatrix.validate_eq_ok_iff]
  split_ifs with h <;> simp [h]

theorem trace_isSome_solve (system : DenseMatrix Float) (method : Method) (traced : Bool) :
    (solve system method traced).trace.isSome = true ↔ traced = true := by
  rw [trace_solve]
  cases traced <;> simp

theorem exists_classify (hvalid : system.validate = .ok ()) :
    ∃ c, classify system = .ok c ∧ c.status = system.classification.status :=
  ⟨_, DenseMatrix.classify_of_isAugmented (DenseMatrix.validate_eq_ok_iff.mp hvalid).1, rfl⟩

theorem zero_le_maxResidual {x : List Float} {r : Float}
    (h : (system.attempt method).outcome = .ok (.solved x r)) : 0 ≤ r := by
  obtain ⟨-, hresiduals, hr⟩ := DenseMatrix.checked_of_solved h
  rcases worstResidual_mem 0 ((List.range system.rows).map (system.residualAt x)) with
    hworst | ⟨s, hs, hworst⟩
  · rw [hr.trans hworst]
    exact Double.zero_le_zero
  · obtain ⟨i, hi, rfl⟩ := List.mem_map.mp hs
    rw [hr.trans hworst]
    exact Double.zero_le_abs (hresiduals i (List.mem_range.mp hi))

theorem wellFormed_of_solved {x : List Float} {r : Float}
    (h : (system.attempt method).outcome = .ok (.solved x r)) :
    (solve system method traced).WellFormed system method traced := by
  obtain ⟨hcandidate, -, -⟩ := DenseMatrix.attempt_eq_solved h
  obtain ⟨hstarts, -⟩ := DenseMatrix.reduced_of_candidate hcandidate
  have haccepted := DenseMatrix.validate_eq_ok_iff.mp hstarts.valid
  obtain ⟨hx, hr⟩ := isFinite_maxResidual h
  have hreport := solve_of_solved traced h
  exact {
    method_eq := by rw [hreport]
    solution_iff := by simp [hreport]
    maxResidual_iff := by simp [hreport]
    error_iff := by simp [hreport]
    trace_iff := trace_isSome_solve ..
    determinant_iff := determinant_solve ..
    solution_finite := by
      intro y hy
      rw [hreport] at hy
      cases hy
      exact ⟨DenseMatrix.length_of_candidate hcandidate, hx⟩
    maxResidual_finite := by
      intro s hs
      rw [hreport] at hs
      cases hs
      exact ⟨hr, zero_le_maxResidual h⟩
    stopped := by simp [hreport]
    unique := by
      intro _
      obtain ⟨c, hc, hstatus⟩ := exists_classify hstarts.valid
      exact ⟨haccepted.1, haccepted.2, c, hc, hstatus.trans hstarts.unique⟩
    refused := fun hrefused => absurd haccepted hrefused }

theorem wellFormed_of_stopped {status : Status}
    (h : (system.attempt method).outcome = .ok (.stopped status)) :
    (solve system method traced).WellFormed system method traced := by
  have hstrategy := DenseMatrix.attempt_eq_stopped h
  have hvalid := DenseMatrix.validate_of_strategy hstrategy
  obtain ⟨rfl, hunique⟩ := DenseMatrix.strategy_eq_stopped hstrategy
  have herror := system.status_classification_ne_error
  have hreport := solve_of_stopped traced h
  exact {
    method_eq := by rw [hreport]
    solution_iff := by simp [hreport, hunique]
    maxResidual_iff := by simp [hreport, hunique]
    error_iff := by simp [hreport, herror]
    trace_iff := trace_isSome_solve ..
    determinant_iff := determinant_solve ..
    solution_finite := by simp [hreport]
    maxResidual_finite := by simp [hreport]
    stopped := by
      intro _
      rw [hreport]
      exact exists_classify hvalid
    unique := by
      intro hstatus
      rw [hreport] at hstatus
      exact absurd hstatus hunique
    refused := fun hrefused => absurd (DenseMatrix.validate_eq_ok_iff.mp hvalid) hrefused }

theorem wellFormed_of_error {e : Error} (h : (system.attempt method).outcome = .error e) :
    (solve system method traced).WellFormed system method traced := by
  have hreport := solve_of_failed traced h
  exact {
    method_eq := by rw [hreport]
    solution_iff := by simp [hreport]
    maxResidual_iff := by simp [hreport]
    error_iff := by simp [hreport]
    trace_iff := trace_isSome_solve ..
    determinant_iff := determinant_solve ..
    solution_finite := by simp [hreport]
    maxResidual_finite := by simp [hreport]
    stopped := by simp [hreport]
    unique := by simp [hreport]
    refused := fun _ => by rw [hreport] }

end Reports

/-- Every system of doubles with fewer rows than the greatest machine word, of any shape and with any
entries, is reported on by every method, with a trace or without. No access is out of range on the
way, and the report is well-formed. The entries of a system fill its shape, so what remains outside
are zeros and identities for which the product of the dimensions has wrapped around. -/
theorem solve_total (system : DenseMatrix Float) (method : Method) (traced : Bool)
    (hrows : system.rows < 2 ^ 64 - 1) :
    ∃ report, Guarded.solve system method traced = .ok report ∧
      report = solve system method traced ∧ report.WellFormed system method traced := by
  refine ⟨_, Guarded.solve_eq (Nat.add_lt_of_lt_sub hrows) method traced, rfl, ?_⟩
  cases hrun : (system.attempt method).outcome with
  | ok verdict =>
    cases verdict with
    | solved x r => exact wellFormed_of_solved hrun
    | stopped status => exact wellFormed_of_stopped hrun
  | error e => exact wellFormed_of_error hrun

/-- The product with the inverse overflows. The report has a determinant and an error, and no
solution. -/
theorem solve_overflowing_product :
    let system : DenseMatrix Float := ⟨1, 2, #[1e-10, 1e300], rfl⟩
    system.rows < 2 ^ 64 - 1 ∧
      ∃ report, Guarded.solve system .inverseMatrix false = .ok report ∧
        report.status = .error ∧ report.error.isSome = true ∧
        report.determinant.isSome = true ∧ report.solution.isSome = false ∧
        report.trace.isSome = false := by
  intro system
  have hrows : system.rows < 2 ^ 64 - 1 := by decide
  obtain ⟨report, hguarded, hreport, hformed⟩ := solve_total system .inverseMatrix false hrows
  have hstatus : report.status = .error := by
    rw [hreport]
    decide +kernel
  have hfinite : system.isFinite = true := by decide +kernel
  refine ⟨hrows, report, hguarded, hstatus, hformed.error_iff.mpr hstatus,
    hformed.determinant_iff.mpr ⟨rfl, rfl, hfinite⟩, ?_, ?_⟩
  · rw [Bool.eq_false_iff, ne_eq, hformed.solution_iff, hstatus]
    exact Status.noConfusion
  · rw [Bool.eq_false_iff, ne_eq, hformed.trace_iff]
    exact Bool.noConfusion

end DenseSystem
