import Mathlib.Tactic
import DenseSystem.Solver.Attempt
import DenseSystem.Proofs.Determinant.Course

/-! # How an attempt comes to its result

The strategies and the checks around them are sequences of steps that may fail. The statements here
take a run that succeeded apart: what was classified, which elimination succeeded, and which steps
were recorded in which order. They hold in any arithmetic.
-/
namespace DenseSystem

variable {α : Type} [Scalar α]

namespace Derivation

variable {σ β γ : Type}

theorem bind_eq_ok {d : Derivation σ β} {f : β → Derivation σ γ} {c : γ}
    (h : (d >>= f).outcome = .ok c) :
    ∃ b, d.outcome = .ok b ∧ (f b).outcome = .ok c ∧ (d >>= f).steps = d.steps ++ (f b).steps := by
  obtain ⟨b, hb, hc⟩ := outcome_bind_eq_ok_iff.mp h
  exact ⟨b, hb, hc, by rw [bind_of_ok hb]⟩

theorem ofExcept_bind_of_ok {x : Except Error β} {b : β} (h : x = .ok b)
    (f : β → Derivation σ γ) : ofExcept x >>= f = f b := by
  subst h
  rfl

theorem ofExcept_bind_eq_ok {x : Except Error β} {f : β → Derivation σ γ} {c : γ}
    (h : (ofExcept x >>= f).outcome = .ok c) : ∃ b, x = .ok b := by
  obtain ⟨b, hb, -⟩ := outcome_bind_eq_ok_iff.mp h
  exact ⟨b, hb⟩

theorem mem_steps_bind {d : Derivation σ β} {step : Step σ} (h : step ∈ d.steps)
    (f : β → Derivation σ γ) : step ∈ (d >>= f).steps := by
  cases hd : d.outcome with
  | ok b =>
    rw [bind_of_ok hd]
    exact List.mem_append_left _ h
  | error e =>
    rw [bind_of_error hd]
    exact h

end Derivation

namespace DenseMatrix

theorem isAugmented_iff {β : Type} {m : DenseMatrix β} :
    m.isAugmented = true ↔ 1 ≤ m.rows ∧ m.cols = m.rows + 1 := by
  simp [isAugmented]

theorem checkAugmented_of_isAugmented {β : Type} {m : DenseMatrix β}
    (h : m.isAugmented = true) : m.checkAugmented = .ok () := if_pos h

theorem validate_eq_ok_iff {system : DenseMatrix α} :
    system.validate = .ok () ↔ system.isAugmented = true ∧ system.isFinite = true := by
  unfold validate checkAugmented checkFinite
  cases system.isAugmented <;> cases system.isFinite <;> simp [bind, Except.bind]

/-- The coefficients of a system that is known to be augmented. -/
def coefficientPart (system : DenseMatrix α) : DenseMatrix α :=
  ofFn system.rows system.rows system.entry

def rhsPart (system : DenseMatrix α) : List α :=
  (List.range system.rows).map (system.entry · system.rows)

@[simp] theorem rows_coefficientPart (system : DenseMatrix α) :
    system.coefficientPart.rows = system.rows := rfl

@[simp] theorem cols_coefficientPart (system : DenseMatrix α) :
    system.coefficientPart.cols = system.rows := rfl

theorem entry_coefficientPart (system : DenseMatrix α) {i j : ℕ} (hi : i < system.rows)
    (hj : j < system.rows) : system.coefficientPart.entry i j = system.entry i j :=
  entry_ofFn _ hi hj

theorem coefficients_of_isAugmented {system : DenseMatrix α} (h : system.isAugmented = true) :
    system.coefficients = .ok system.coefficientPart := by
  obtain ⟨-, hcols⟩ := isAugmented_iff.mp h
  have hfits : 0 + system.rows ≤ system.rows ∧ 0 + system.rows ≤ system.cols := by omega
  unfold coefficients
  rw [checkAugmented_of_isAugmented h]
  change system.block 0 0 system.rows system.rows = _
  rw [block, if_pos hfits]
  simp only [Nat.zero_add]
  rfl

theorem rhs_of_isAugmented {system : DenseMatrix α} (h : system.isAugmented = true) :
    system.rhs = .ok system.rhsPart := by
  obtain ⟨-, hcols⟩ := isAugmented_iff.mp h
  unfold rhs
  rw [checkAugmented_of_isAugmented h]
  exact if_pos (by omega : system.rows < system.cols)

def classification (system : DenseMatrix α) : Classification :=
  .ofRanks system.coefficientPart.rank system.rank system.rows

theorem classify_of_isAugmented {system : DenseMatrix α} (h : system.isAugmented = true) :
    classify system = .ok system.classification := by
  unfold classify
  rw [coefficients_of_isAugmented h]
  rfl

/-- The ranks say nothing of errors. -/
theorem status_classification_ne_error (system : DenseMatrix α) :
    system.classification.status ≠ .error := by
  rw [classification, Classification.ofRanks]
  split_ifs <;> simp

theorem classified_of_isAugmented {system : DenseMatrix α} (h : system.isAugmented = true) :
    system.classified = ⟨[.classified system.classification], .ok system.classification⟩ := by
  unfold classified
  rw [classify_of_isAugmented h]
  rfl

/-! ## Strategies -/

def findCandidate (system : DenseMatrix α) (sweep : Sweep)
    (extract : DenseMatrix α → Derivation α (List α)) : Derivation α (Finding α) := do
  let work ← system.reduce sweep
  let x ← extract work
  return .candidate x

/-- A well-formed system is classified, and eliminated only if it is uniquely solvable. -/
theorem eliminate_eq {system : DenseMatrix α} (h : system.validate = .ok ()) (sweep : Sweep)
    (extract : DenseMatrix α → Derivation α (List α)) :
    system.eliminate sweep extract =
      if system.classification.status = .unique then
        ⟨.classified system.classification :: .snapshot .initial system ::
            (system.findCandidate sweep extract).steps,
          (system.findCandidate sweep extract).outcome⟩
      else ⟨[.classified system.classification], .ok (.stopped system.classification.status)⟩ := by
  obtain ⟨haug, -⟩ := validate_eq_ok_iff.mp h
  unfold eliminate
  rw [h, classified_of_isAugmented haug]
  change (⟨[.classified system.classification], .ok system.classification⟩ : Derivation α _) >>=
    (fun c => if c.status = .unique then
      Derivation.record (.snapshot .initial system) >>= fun _ => system.findCandidate sweep extract
      else _) = _
  rw [Derivation.bind_of_ok rfl]
  split_ifs <;> rfl

theorem validate_of_eliminate {system : DenseMatrix α} {sweep : Sweep}
    {extract : DenseMatrix α → Derivation α (List α)} {f : Finding α}
    (h : (system.eliminate sweep extract).outcome = .ok f) : system.validate = .ok () := by
  obtain ⟨u, hu⟩ := Derivation.ofExcept_bind_eq_ok h
  exact hu

theorem findCandidate_eq_ok {system : DenseMatrix α} {sweep : Sweep}
    {extract : DenseMatrix α → Derivation α (List α)} {f : Finding α}
    (h : (system.findCandidate sweep extract).outcome = .ok f) :
    ∃ work x, (system.reduce sweep).outcome = .ok work ∧ (extract work).outcome = .ok x ∧
      f = .candidate x ∧ (system.findCandidate sweep extract).steps =
        (system.reduce sweep).steps ++ (extract work).steps := by
  obtain ⟨work, hwork, h, hsteps⟩ := Derivation.bind_eq_ok h
  obtain ⟨x, hx, h, hsteps'⟩ := Derivation.bind_eq_ok h
  cases h
  refine ⟨work, x, hwork, hx, rfl, ?_⟩
  rw [hsteps', Derivation.steps_pure, List.append_nil] at hsteps
  exact hsteps

theorem findCandidate_of_reduce {system work : DenseMatrix α} {sweep : Sweep}
    {extract : DenseMatrix α → Derivation α (List α)} {x : List α}
    (hwork : (system.reduce sweep).outcome = .ok work) (hx : (extract work).outcome = .ok x) :
    (system.findCandidate sweep extract).outcome = .ok (.candidate x) :=
  Derivation.outcome_bind_eq_ok_iff.mpr
    ⟨work, hwork, Derivation.outcome_bind_eq_ok_iff.mpr ⟨x, hx, rfl⟩⟩

/-- A uniquely solvable system is reduced, whatever comes of it. -/
theorem mem_steps_eliminate {system : DenseMatrix α} (h : system.validate = .ok ())
    (hunique : system.classification.status = .unique) {sweep : Sweep}
    (extract : DenseMatrix α → Derivation α (List α)) {step : Step α}
    (hstep : step ∈ (system.reduce sweep).steps) :
    step ∈ (system.eliminate sweep extract).steps := by
  rw [eliminate_eq h, if_pos hunique]
  exact List.mem_cons_of_mem _ (List.mem_cons_of_mem _ (Derivation.mem_steps_bind hstep _))

theorem eliminate_of_ne_unique {system : DenseMatrix α} (h : system.validate = .ok ())
    (hne : system.classification.status ≠ .unique) (sweep : Sweep)
    (extract : DenseMatrix α → Derivation α (List α)) :
    (system.eliminate sweep extract).outcome = .ok (.stopped system.classification.status) := by
  rw [eliminate_eq h, if_neg hne]

theorem eliminate_eq_stopped {system : DenseMatrix α} {sweep : Sweep}
    {extract : DenseMatrix α → Derivation α (List α)} {s : Status}
    (h : (system.eliminate sweep extract).outcome = .ok (.stopped s)) :
    s = system.classification.status ∧ s ≠ .unique := by
  rw [eliminate_eq (validate_of_eliminate h)] at h
  split_ifs at h with hc
  · obtain ⟨work, x, -, -, hx, -⟩ := findCandidate_eq_ok h
    cases hx
  · cases h
    exact ⟨rfl, hc⟩

theorem eliminate_eq_candidate {system : DenseMatrix α} {sweep : Sweep}
    {extract : DenseMatrix α → Derivation α (List α)} {x : List α}
    (h : (system.eliminate sweep extract).outcome = .ok (.candidate x)) :
    system.validate = .ok () ∧ system.classification.status = .unique ∧
      ∃ work, (system.reduce sweep).outcome = .ok work ∧ (extract work).outcome = .ok x ∧
        (system.eliminate sweep extract).steps =
          .classified system.classification :: .snapshot .initial system ::
            ((system.reduce sweep).steps ++ (extract work).steps) := by
  have hvalid := validate_of_eliminate h
  rw [eliminate_eq hvalid] at h ⊢
  split_ifs at h ⊢ with hc
  · obtain ⟨work, y, hwork, hy, hxy, hsteps⟩ := findCandidate_eq_ok h
    cases hxy
    refine ⟨hvalid, hc, work, hwork, hy, ?_⟩
    rw [← hsteps]
  · cases h

theorem invert_eq_ok {m inverse : DenseMatrix α} (h : m.invert.outcome = .ok inverse) :
    m.isSquare = true ∧ ∃ work, (m.besideIdentity.reduce .all).outcome = .ok work ∧
      work.block 0 m.rows m.rows m.rows = .ok inverse ∧
      m.invert.steps = .snapshot .initial m.besideIdentity ::
        ((m.besideIdentity.reduce .all).steps ++ [.inverse inverse]) := by
  obtain ⟨u, hsquare, h, hcheck⟩ := Derivation.bind_eq_ok h
  obtain ⟨u', -, h, hinitial⟩ := Derivation.bind_eq_ok h
  obtain ⟨work, hwork, h, hreduce⟩ := Derivation.bind_eq_ok h
  obtain ⟨result, hblock, h, hlast⟩ := Derivation.bind_eq_ok h
  cases h
  refine ⟨?_, work, hwork, hblock, ?_⟩
  · by_contra hne
    change m.checkSquare = .ok u at hsquare
    rw [checkSquare, if_neg hne] at hsquare
    cases hsquare
  · rw [hlast] at hreduce
    rw [hreduce] at hinitial
    rw [hinitial] at hcheck
    exact hcheck

def coefficientDeterminant (system : DenseMatrix α) : α :=
  system.coefficientPart.determinantFrom 1 0 system.rows

theorem determinant_coefficientPart (system : DenseMatrix α) :
    system.coefficientPart.determinant = .ok system.coefficientDeterminant :=
  determinant_of_isSquare (by simp [isSquare])

def applyInverse (system : DenseMatrix α) : Derivation α (Finding α) :=
  if isNearZero system.coefficientDeterminant then .fail .singularMatrix
  else if system.classification.status = .unique then do
    let inverse ← system.coefficientPart.invert
    let x ← .ofExcept (inverse.multiply system.rhsPart)
    return .candidate x
  else return .stopped system.classification.status

theorem inverseMatrix_eq {system : DenseMatrix α} (h : system.validate = .ok ()) :
    system.inverseMatrix =
      ⟨.determinant system.coefficientDeterminant :: .classified system.classification ::
        system.applyInverse.steps, system.applyInverse.outcome⟩ := by
  obtain ⟨haug, -⟩ := validate_eq_ok_iff.mp h
  unfold inverseMatrix
  rw [h, coefficients_of_isAugmented haug, rhs_of_isAugmented haug,
    classified_of_isAugmented haug]
  simp only [Derivation.ofExcept_bind_of_ok rfl, determinant_coefficientPart]
  rfl

theorem validate_of_inverseMatrix {system : DenseMatrix α} {f : Finding α}
    (h : system.inverseMatrix.outcome = .ok f) : system.validate = .ok () := by
  obtain ⟨u, hu⟩ := Derivation.ofExcept_bind_eq_ok h
  exact hu

theorem inverseMatrix_eq_stopped {system : DenseMatrix α} {s : Status}
    (h : system.inverseMatrix.outcome = .ok (.stopped s)) :
    s = system.classification.status ∧ s ≠ .unique := by
  rw [inverseMatrix_eq (validate_of_inverseMatrix h)] at h
  unfold applyInverse at h
  split_ifs at h with hdet hc
  · cases h
  · obtain ⟨inverse, -, h⟩ := Derivation.outcome_bind_eq_ok_iff.mp h
    obtain ⟨x, -, h⟩ := Derivation.outcome_bind_eq_ok_iff.mp h
    cases h
  · cases h
    exact ⟨rfl, hc⟩

theorem inverseMatrix_eq_candidate {system : DenseMatrix α} {x : List α}
    (h : system.inverseMatrix.outcome = .ok (.candidate x)) :
    system.validate = .ok () ∧ isNearZero system.coefficientDeterminant = false ∧
      system.classification.status = .unique ∧
      ∃ inverse, system.coefficientPart.invert.outcome = .ok inverse ∧
        inverse.multiply system.rhsPart = .ok x ∧
        system.inverseMatrix.steps =
          .determinant system.coefficientDeterminant :: .classified system.classification ::
            system.coefficientPart.invert.steps := by
  have hvalid := validate_of_inverseMatrix h
  rw [inverseMatrix_eq hvalid] at h ⊢
  unfold applyInverse at h ⊢
  split_ifs at h ⊢ with hdet hc
  · cases h
  · obtain ⟨inverse, hinverse, h, hsteps⟩ := Derivation.bind_eq_ok h
    obtain ⟨y, hy, h, hsteps'⟩ := Derivation.bind_eq_ok h
    cases h
    refine ⟨hvalid, by simpa using hdet, hc, inverse, hinverse, hy, ?_⟩
    rw [hsteps'] at hsteps
    rw [hsteps]
    exact congrArg (fun steps => Step.determinant _ :: Step.classified _ :: steps)
      (List.append_nil _)
  · cases h

/-! ## Attempts and reports -/

/-- A strategy only stops with what the classification says. -/
theorem strategy_eq_stopped {system : DenseMatrix α} {method : Method} {s : Status}
    (h : (system.strategy method).outcome = .ok (.stopped s)) :
    s = system.classification.status ∧ s ≠ .unique := by
  cases method with
  | gauss => exact eliminate_eq_stopped h
  | gaussJordan => exact eliminate_eq_stopped h
  | inverseMatrix => exact inverseMatrix_eq_stopped h

/-- The two eliminations do stop there unless a unique solution is promised. -/
theorem strategy_of_ne_unique {system : DenseMatrix α} {method : Method}
    (hmethod : method ≠ .inverseMatrix) (hvalid : system.validate = .ok ())
    (hne : system.classification.status ≠ .unique) :
    (system.strategy method).outcome = .ok (.stopped system.classification.status) := by
  cases method with
  | gauss => exact eliminate_of_ne_unique hvalid hne _ _
  | gaussJordan => exact eliminate_of_ne_unique hvalid hne _ _
  | inverseMatrix => exact absurd rfl hmethod

/-- An attempt that does not fail adds nothing to its strategy and the check. -/
theorem attempt_eq_ok {system : DenseMatrix α} {method : Method} {v : Verdict α}
    (h : (system.attempt method).outcome = .ok v) :
    (system.strategy method >>= system.verdict).outcome = .ok v ∧
      system.attempt method = system.strategy method >>= system.verdict := by
  cases hd : (system.strategy method >>= system.verdict).outcome with
  | ok w =>
    have heq : system.attempt method = system.strategy method >>= system.verdict := by
      simp only [attempt, hd]
    rw [heq, hd] at h
    exact ⟨h, heq⟩
  | error e =>
    simp only [attempt, hd] at h
    cases h

theorem attempt_eq_solved {system : DenseMatrix α} {method : Method} {x : List α} {r : α}
    (h : (system.attempt method).outcome = .ok (.solved x r)) :
    (system.strategy method).outcome = .ok (.candidate x) ∧ (system.check x).outcome = .ok r ∧
      (system.attempt method).steps =
        (system.strategy method).steps ++ (system.check x).steps := by
  obtain ⟨hrun, heq⟩ := attempt_eq_ok h
  obtain ⟨f, hf, hv, hsteps⟩ := Derivation.bind_eq_ok hrun
  cases f with
  | stopped s => cases hv
  | candidate y =>
    obtain ⟨r', hr', hv, hsteps'⟩ := Derivation.bind_eq_ok hv
    cases hv
    refine ⟨hf, hr', ?_⟩
    rw [heq, hsteps]
    exact congrArg _ (hsteps'.trans (List.append_nil _))

theorem attempt_eq_stopped {system : DenseMatrix α} {method : Method} {s : Status}
    (h : (system.attempt method).outcome = .ok (.stopped s)) :
    (system.strategy method).outcome = .ok (.stopped s) := by
  obtain ⟨f, hf, hv, -⟩ := Derivation.bind_eq_ok (attempt_eq_ok h).1
  cases f with
  | stopped s' =>
    cases hv
    exact hf
  | candidate y =>
    obtain ⟨r, -, hv⟩ := Derivation.outcome_bind_eq_ok_iff.mp hv
    cases hv

theorem attempt_of_candidate {system : DenseMatrix α} {method : Method} {x : List α} {r : α}
    (hx : (system.strategy method).outcome = .ok (.candidate x))
    (hr : (system.check x).outcome = .ok r) :
    (system.attempt method).outcome = .ok (.solved x r) := by
  have hrun : (system.strategy method >>= system.verdict).outcome = .ok (.solved x r) :=
    Derivation.outcome_bind_eq_ok_iff.mpr
      ⟨_, hx, Derivation.outcome_bind_eq_ok_iff.mpr ⟨r, hr, rfl⟩⟩
  simp only [attempt, hrun]

theorem attempt_of_stopped {system : DenseMatrix α} {method : Method} {s : Status}
    (h : (system.strategy method).outcome = .ok (.stopped s)) :
    (system.attempt method).outcome = .ok (.stopped s) := by
  have hrun : (system.strategy method >>= system.verdict).outcome = .ok (.stopped s) :=
    Derivation.outcome_bind_eq_ok_iff.mpr ⟨_, h, rfl⟩
  simp only [attempt, hrun]

theorem mem_steps_attempt {system : DenseMatrix α} {method : Method} {step : Step α}
    (h : step ∈ (system.strategy method).steps) : step ∈ (system.attempt method).steps := by
  have hrun := Derivation.mem_steps_bind h system.verdict
  unfold attempt
  cases hd : (system.strategy method >>= system.verdict).outcome with
  | ok v => simpa only [hd] using hrun
  | error e =>
    simp only [hd]
    exact List.mem_append_left _ hrun

end DenseMatrix

theorem solve_of_solved {system : DenseMatrix α} {method : Method} (traced : Bool) {x : List α}
    {r : α} (h : (system.attempt method).outcome = .ok (.solved x r)) :
    solve system method traced =
      { method := method
        status := .unique
        solution := some x
        maxResidual := some r
        determinant := (system.attempt method).steps.findSome? Step.determinant?
        trace := if traced then some ⟨true, (system.attempt method).steps⟩ else none } := by
  simp only [solve, Report.ofDerivation, h]

theorem solve_of_stopped {system : DenseMatrix α} {method : Method} (traced : Bool) {s : Status}
    (h : (system.attempt method).outcome = .ok (.stopped s)) :
    solve system method traced =
      { method := method
        status := s
        determinant := (system.attempt method).steps.findSome? Step.determinant?
        trace := if traced then some ⟨true, (system.attempt method).steps⟩ else none } := by
  simp only [solve, Report.ofDerivation, h]

theorem solve_of_failed {system : DenseMatrix α} {method : Method} (traced : Bool) {e : Error}
    (h : (system.attempt method).outcome = .error e) :
    solve system method traced =
      { method := method
        status := .error
        determinant := (system.attempt method).steps.findSome? Step.determinant?
        error := some e.message
        trace := if traced then some ⟨true, (system.attempt method).steps⟩ else none } := by
  simp only [solve, Report.ofDerivation, h]

theorem status_solve_of_stopped {system : DenseMatrix α} {method : Method} (traced : Bool)
    {s : Status} (h : (system.attempt method).outcome = .ok (.stopped s)) :
    (solve system method traced).status = s := by
  rw [solve_of_stopped traced h]

theorem solve_of_error {system : DenseMatrix α} {method : Method} (traced : Bool) {e : Error}
    (h : (system.attempt method).outcome = .error e) :
    (solve system method traced).status = .error ∧
      (solve system method traced).error = some e.message := by
  rw [solve_of_failed traced h]
  exact ⟨rfl, rfl⟩

theorem solve_of_singular {system : DenseMatrix α} (traced : Bool)
    (hvalid : system.validate = .ok ())
    (hdet : isNearZero system.coefficientDeterminant = true) :
    (solve system .inverseMatrix traced).status = .error ∧
      (solve system .inverseMatrix traced).error = some "coefficient matrix is singular" ∧
      (solve system .inverseMatrix traced).determinant = some system.coefficientDeterminant := by
  have hrun : system.attempt .inverseMatrix =
      ⟨[.determinant system.coefficientDeterminant, .classified system.classification,
        .failed Error.singularMatrix.message], .error .singularMatrix⟩ := by
    have hstrategy : system.strategy .inverseMatrix =
        ⟨[.determinant system.coefficientDeterminant, .classified system.classification],
          .error .singularMatrix⟩ := by
      change system.inverseMatrix = _
      rw [DenseMatrix.inverseMatrix_eq hvalid, DenseMatrix.applyInverse, if_pos hdet]
      rfl
    simp only [DenseMatrix.attempt, hstrategy]
    rfl
  rw [solve_of_failed traced (congrArg Derivation.outcome hrun), hrun]
  exact ⟨rfl, rfl, rfl⟩

/-- A unique solution is only reported when a candidate passed the check. -/
theorem solved_of_status_eq_unique {system : DenseMatrix α} {method : Method} {traced : Bool}
    (h : (solve system method traced).status = .unique) :
    ∃ x r, (system.attempt method).outcome = .ok (.solved x r) := by
  cases hrun : (system.attempt method).outcome with
  | ok v =>
    cases v with
    | solved x r => exact ⟨x, r, rfl⟩
    | stopped s =>
      rw [status_solve_of_stopped traced hrun] at h
      exact absurd h (DenseMatrix.strategy_eq_stopped (DenseMatrix.attempt_eq_stopped hrun)).2
  | error e =>
    rw [(solve_of_error traced hrun).1] at h
    cases h

/-- An elimination that reports no unique solution reports the classification, or an error in place
of a unique solution. -/
theorem status_solve_of_ne_unique {system : DenseMatrix α} {method : Method} {traced : Bool}
    (hmethod : method ≠ .inverseMatrix) (hvalid : system.validate = .ok ())
    (h : (solve system method traced).status ≠ .unique) :
    (solve system method traced).status =
      if system.classification.status = .unique then .error
      else system.classification.status := by
  split_ifs with hunique
  · cases hrun : (system.attempt method).outcome with
    | error e => exact (solve_of_error traced hrun).1
    | ok v =>
      cases v with
      | solved x r =>
        rw [solve_of_solved traced hrun] at h
        exact absurd rfl h
      | stopped s =>
        obtain ⟨hs, hne⟩ := DenseMatrix.strategy_eq_stopped (DenseMatrix.attempt_eq_stopped hrun)
        exact absurd (hs.trans hunique) hne
  · exact status_solve_of_stopped traced (DenseMatrix.attempt_of_stopped
      (DenseMatrix.strategy_of_ne_unique hmethod hvalid hunique))

end DenseSystem
