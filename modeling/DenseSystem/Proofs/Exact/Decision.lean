import Mathlib
import DenseSystem.Proofs.Exact.Determinant
import DenseSystem.Proofs.Exact.Solvability
import DenseSystem.Proofs.Exact.Soundness

/-! # Deciding a system exactly

If no value that is compared with the tolerance while pivots are searched lies strictly between zero
and the tolerance, then the classification counts the solutions and the methods find the one there
is.
-/
namespace DenseSystem

open Matrix

section Tests

variable {α : Type} [Scalar α]

def Step.pivotValue? : Step α → Option α
  | pivotSelected _ _ value => some value
  | _ => none

namespace DenseMatrix

/-- All values that are compared with the tolerance while pivots are searched: for both ranks, for
the determinant, and by the three methods. -/
def pivotTests (system : DenseMatrix α) : List α :=
  system.coefficientPart.rankTests ++ system.rankTests ++
    system.coefficientPart.determinantTests 1 0 system.rows ++
      Method.all.flatMap fun method => (system.attempt method).steps.filterMap Step.pivotValue?

theorem mem_pivotTests {system : DenseMatrix α} {method : Method} {k p : ℕ} {v : α}
    (h : .pivotSelected k p v ∈ (system.strategy method).steps) : v ∈ system.pivotTests := by
  refine List.mem_append_right _ (List.mem_flatMap.mpr ⟨method, ?_, ?_⟩)
  · cases method <;> decide
  · exact List.mem_filterMap.mpr ⟨_, mem_steps_attempt h, rfl⟩

end DenseMatrix

end Tests

variable [Tolerance]

namespace DenseMatrix

variable {system : DenseMatrix ℚ}

theorem validate_of_isAugmented (haug : system.isAugmented = true) :
    system.validate = .ok () :=
  validate_eq_ok_iff.mpr ⟨haug, Array.all_eq_true.mpr fun _ _ => Exact.isFinite_eq_true _⟩

/-- Without a misjudged pivot a nonsingular matrix is reduced to the end. -/
theorem exists_reduce {start : DenseMatrix ℚ} {sweep : Sweep} (hshape : start.rows ≤ start.cols)
    (hdet : (start.toMatrix start.rows start.rows).det ≠ 0)
    (hclear : ∀ k p v, .pivotSelected k p v ∈ (start.reduce sweep).steps → Exact.Clear v) :
    ∃ work, (start.reduce sweep).outcome = .ok work := by
  cases h : (start.reduce sweep).outcome with
  | ok work => exact ⟨work, rfl⟩
  | error e => exact absurd (det_eq_zero_of_reduce hshape h hclear) hdet

theorem eliminate_of_clear {sweep : Sweep} {extract : DenseMatrix ℚ → Derivation ℚ (List ℚ)}
    (haug : system.isAugmented = true) (hunique : system.classification.status = .unique)
    (hdet : (system.toMatrix system.rows system.rows).det ≠ 0)
    (hclear : ∀ k p v, .pivotSelected k p v ∈ (system.eliminate sweep extract).steps →
      Exact.Clear v)
    (hextract : ∀ work, work.rows = system.rows → work.cols = system.cols →
      ∃ x, (extract work).outcome = .ok x) :
    ∃ x, (system.eliminate sweep extract).outcome = .ok (.candidate x) := by
  have hvalid := validate_of_isAugmented haug
  obtain ⟨-, hcols⟩ := isAugmented_iff.mp haug
  have hpivots : ∀ k p v, .pivotSelected k p v ∈ (system.reduce sweep).steps → Exact.Clear v :=
    fun k p v hv => hclear k p v (mem_steps_eliminate hvalid hunique extract hv)
  obtain ⟨work, hwork⟩ := exists_reduce (by omega) hdet hpivots
  obtain ⟨hrows, hcols'⟩ := rows_of_reduce hwork
  obtain ⟨x, hx⟩ := hextract work hrows hcols'
  refine ⟨x, ?_⟩
  rw [eliminate_eq hvalid, if_pos hunique]
  exact findCandidate_of_reduce hwork hx

theorem strategy_of_clear {method : Method} (hmethod : method ≠ .inverseMatrix)
    (haug : system.isAugmented = true) (hunique : system.classification.status = .unique)
    (hdet : (system.toMatrix system.rows system.rows).det ≠ 0)
    (hclear : ∀ v ∈ system.pivotTests, Exact.Clear v) :
    ∃ x, (system.strategy method).outcome = .ok (.candidate x) := by
  have hsteps : ∀ k p v, .pivotSelected k p v ∈ (system.strategy method).steps →
      Exact.Clear v := fun k p v hv => hclear v (mem_pivotTests hv)
  obtain ⟨-, hcols⟩ := isAugmented_iff.mp haug
  cases method with
  | gauss => exact eliminate_of_clear haug hunique hdet hsteps fun work _ _ => ⟨_, rfl⟩
  | gaussJordan =>
    refine eliminate_of_clear haug hunique hdet hsteps fun work hrows hcols' =>
      ⟨work.rhsPart, ?_⟩
    exact column_eq_rhsPart (by omega)
  | inverseMatrix => exact absurd rfl hmethod

theorem inverseMatrix_of_clear (haug : system.isAugmented = true)
    (hunique : system.classification.status = .unique)
    (hdet : (system.toMatrix system.rows system.rows).det ≠ 0)
    (hlarge : isNearZero system.coefficientDeterminant = false)
    (hclear : ∀ v ∈ system.pivotTests, Exact.Clear v) :
    ∃ x, (system.strategy .inverseMatrix).outcome = .ok (.candidate x) := by
  have hvalid := validate_of_isAugmented haug
  have hsquare : system.coefficientPart.isSquare = true := by simp [isSquare]
  have happly : system.applyInverse = system.coefficientPart.invert >>= fun inverse =>
      .ofExcept (inverse.multiply system.rhsPart) >>= fun x => pure (.candidate x) := by
    rw [applyInverse, hlarge, if_neg Bool.false_ne_true, if_pos hunique]
  have hdet' : (system.coefficientPart.besideIdentity.toMatrix system.rows system.rows).det ≠ 0 := by
    have hbeside := system.coefficientPart.toMatrix_besideIdentity
    rw [rows_coefficientPart] at hbeside
    rw [hbeside, toMatrix_coefficientPart]
    exact hdet
  have hpivots : ∀ k p v,
      .pivotSelected k p v ∈ (system.coefficientPart.besideIdentity.reduce .all).steps →
        Exact.Clear v := by
    intro k p v hv
    have hmem : .pivotSelected k p v ∈ (system.strategy .inverseMatrix).steps := by
      change _ ∈ system.inverseMatrix.steps
      rw [inverseMatrix_eq hvalid, happly]
      exact List.mem_cons_of_mem _ (List.mem_cons_of_mem _
        (Derivation.mem_steps_bind (mem_steps_invert hsquare hv) _))
    exact hclear v (mem_pivotTests hmem)
  have hwide : system.rows ≤ 2 * system.rows := by omega
  obtain ⟨work, hwork⟩ := exists_reduce hwide hdet' hpivots
  refine ⟨system.inverseProduct work, ?_⟩
  change system.inverseMatrix.outcome = _
  rw [inverseMatrix_eq hvalid, happly, Derivation.bind_of_ok (invert_of_reduce hsquare hwork)]
  simp only [rows_coefficientPart, multiply_rightHalf]
  rfl

theorem coefficientDeterminant_eq
    (hclear : ∀ v ∈ system.coefficientPart.determinantTests 1 0 system.rows, Exact.Clear v) :
    system.coefficientDeterminant = (system.toMatrix system.rows system.rows).det := by
  rw [← toMatrix_coefficientPart]
  exact determinantFrom_eq le_rfl hclear

end DenseMatrix

section Reports

variable {system : DenseMatrix ℚ} {method : Method}

theorem solve_of_candidate {y : List ℚ} (traced : Bool) (haug : system.isAugmented = true)
    (h : (system.strategy method).outcome = .ok (.candidate y)) :
    (solve system method traced).status = .unique ∧
      (solve system method traced).solution = some y := by
  have hsolves := (DenseMatrix.solves_of_candidate h).1
  have hrun := DenseMatrix.attempt_of_candidate h (DenseMatrix.check_of_solves haug hsolves)
  rw [solve_of_solved traced hrun]
  exact ⟨rfl, rfl⟩

theorem solve_of_clear (traced : Bool) (hmethod : method ≠ .inverseMatrix)
    (haug : system.isAugmented = true)
    (hdet : system.classification.status = .unique →
      (system.toMatrix system.rows system.rows).det ≠ 0)
    (hclear : ∀ v ∈ system.pivotTests, Exact.Clear v) :
    (solve system method traced).status = system.classification.status ∧
      ∀ x, (∀ y, system.Solves y ↔ y = x) → system.classification.status = .unique →
        (solve system method traced).solution = some x := by
  by_cases hunique : system.classification.status = .unique
  · obtain ⟨y, hy⟩ := DenseMatrix.strategy_of_clear hmethod haug hunique (hdet hunique) hclear
    obtain ⟨hstatus, hsolution⟩ := solve_of_candidate traced haug hy
    refine ⟨hstatus.trans hunique.symm, fun x hx _ => ?_⟩
    rw [hsolution, (hx y).mp (DenseMatrix.solves_of_candidate hy).1]
  · have hstopped := DenseMatrix.strategy_of_ne_unique hmethod
      (DenseMatrix.validate_of_isAugmented haug) hunique
    exact ⟨status_solve_of_stopped traced (DenseMatrix.attempt_of_stopped hstopped),
      fun _ _ h => absurd h hunique⟩

theorem solve_inverseMatrix_of_isNearZero (traced : Bool) (haug : system.isAugmented = true)
    (hnear : isNearZero system.coefficientDeterminant = true) :
    (solve system .inverseMatrix traced).status = .error ∧
      (solve system .inverseMatrix traced).error = some "coefficient matrix is singular" := by
  obtain ⟨hstatus, hmessage, -⟩ :=
    solve_of_singular traced (DenseMatrix.validate_of_isAugmented haug) hnear
  exact ⟨hstatus, hmessage⟩

end Reports

/-- When the tolerance misjudges no pivot, the classification counts the solutions, the eliminations
report what it says, and the inverse method gives up exactly when the determinant is below the
tolerance. -/
theorem decides_of_clear (system : DenseMatrix ℚ) (haug : system.isAugmented = true)
    (hclear : ∀ v ∈ system.pivotTests, v = 0 ∨ Scalar.tolerance ≤ |v|) (traced : Bool) :
    ∃ c, classify system = .ok c ∧
      (c.status = .unique ↔ ∃! x, system.Solves x) ∧
      (c.status = .infinite ↔ ∃ x y, system.Solves x ∧ system.Solves y ∧ y ≠ x) ∧
      (c.status = .none ↔ ¬ ∃ x, system.Solves x) ∧
      c.status ≠ .error ∧
      (∀ method, method = .gauss ∨ method = .gaussJordan →
        (solve system method traced).status = c.status ∧
          ∀ x, (∀ y, system.Solves y ↔ y = x) →
            (solve system method traced).solution = some x) ∧
      (Scalar.tolerance ≤ |(system.toMatrix system.rows system.rows).det| →
        (solve system .inverseMatrix traced).status = .unique ∧
          ∀ x, (∀ y, system.Solves y ↔ y = x) →
            (solve system .inverseMatrix traced).solution = some x) ∧
      (|(system.toMatrix system.rows system.rows).det| < Scalar.tolerance →
        (solve system .inverseMatrix traced).status = .error ∧
          (solve system .inverseMatrix traced).error = some "coefficient matrix is singular") := by
  have hranks : ∀ v ∈ system.coefficientPart.rankTests ++ system.rankTests, Exact.Clear v :=
    fun v hv => hclear v (List.mem_append_left _ (List.mem_append_left _ hv))
  obtain ⟨hunique, hinfinite, hnone⟩ := DenseMatrix.status_classification_iff haug
    (fun v hv => hranks v (List.mem_append_left _ hv))
    (fun v hv => hranks v (List.mem_append_right _ hv))
  have hdeterminant := system.coefficientDeterminant_eq fun v hv =>
    hclear v (List.mem_append_left _ (List.mem_append_right _ hv))
  have hdet := hunique.trans system.existsUnique_solves_iff_det
  have hone : ∀ x, (∀ y, system.Solves y ↔ y = x) → system.classification.status = .unique :=
    fun x hx => hunique.mpr ⟨x, (hx x).mpr rfl, fun y hy => (hx y).mp hy⟩
  refine ⟨system.classification, DenseMatrix.classify_of_isAugmented haug, hunique, hinfinite,
    hnone, system.status_classification_ne_error, fun method hmethod => ?_, fun hlarge => ?_,
    fun hsmall => ?_⟩
  · have hmethod' : method ≠ .inverseMatrix := by rcases hmethod with rfl | rfl <;> decide
    obtain ⟨hstatus, hsolution⟩ := solve_of_clear traced hmethod' haug hdet.mp hclear
    exact ⟨hstatus, fun x hx => hsolution x hx (hone x hx)⟩
  · have hne : (system.toMatrix system.rows system.rows).det ≠ 0 :=
      abs_pos.mp (Exact.tolerance_pos.trans_le hlarge)
    rw [← hdeterminant, ← Exact.isNearZero_eq_false_iff] at hlarge
    obtain ⟨y, hy⟩ := DenseMatrix.inverseMatrix_of_clear haug (hdet.mpr hne) hne hlarge hclear
    obtain ⟨hstatus, hsolution⟩ := solve_of_candidate traced haug hy
    refine ⟨hstatus, fun x hx => ?_⟩
    rw [hsolution, (hx y).mp (DenseMatrix.solves_of_candidate hy).1]
  · rw [← hdeterminant, ← Exact.isNearZero_iff] at hsmall
    exact solve_inverseMatrix_of_isNearZero traced haug hsmall

omit [Tolerance] in
theorem decides_dependent_equations :
    let _ : Tolerance := .decimal
    let system : DenseMatrix ℚ := ⟨3, 4, #[0, 0, 2, 4, 1, 1, 1, 3, 2, 2, 2, 6], rfl⟩
    system.isAugmented = true ∧ (∀ v ∈ system.pivotTests, v = 0 ∨ Scalar.tolerance ≤ |v|) ∧
      ∃ c, classify system = .ok c ∧ c.status = .infinite ∧
        ∃ x y, system.Solves x ∧ system.Solves y ∧ y ≠ x := by
  intro _ system
  have haug : system.isAugmented = true := rfl
  have hclear : ∀ v ∈ system.pivotTests, v = 0 ∨ Scalar.tolerance ≤ |v| := by decide +kernel
  obtain ⟨c, hc, -, hinfinite, -⟩ := decides_of_clear system haug hclear true
  have hstatus : c.status = .infinite := by
    have hvalue : classify system = .ok ⟨2, 2, 3, .infinite⟩ := by decide +kernel
    rw [hvalue] at hc
    cases hc
    rfl
  exact ⟨haug, hclear, c, hc, hstatus, hinfinite.mp hstatus⟩

end DenseSystem
