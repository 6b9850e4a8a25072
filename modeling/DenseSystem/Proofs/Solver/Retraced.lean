import Mathlib.Tactic
import DenseSystem.Proofs.Elimination.Retraced
import DenseSystem.Proofs.Solver.Course

/-! # Attempts retraced

The record of an attempt is a complete derivation. Replayed from the initial copy, its row operations
pass through every later copy of the working matrix, and the last copy determines the solution.
-/
namespace DenseSystem

section Splitting

variable {β : Type}

/-- A member of the middle part of a list splits that part where it splits the list. -/
theorem split_of_middle {left middle right before after : List β} {first x : β}
    (h : left ++ first :: (middle ++ right) = before ++ x :: after) (hleft : x ∉ left)
    (hfirst : x ≠ first) (hright : x ∉ right) :
    ∃ since rest, before = left ++ first :: since ∧ middle = since ++ x :: rest := by
  rcases List.append_eq_append_iff.mp h with ⟨tail, rfl, htail⟩ | ⟨tail, rfl, htail⟩
  · cases tail with
    | nil => exact absurd (List.cons.inj htail).1.symm hfirst
    | cons y since =>
      obtain ⟨rfl, hmiddle⟩ := List.cons.inj htail
      rcases List.append_eq_append_iff.mp hmiddle with ⟨rest, rfl, hrest⟩ | ⟨rest, rfl, hrest⟩
      · refine absurd ?_ hright
        rw [hrest]
        simp
      · cases rest with
        | nil =>
          refine absurd ?_ hright
          rw [List.nil_append] at hrest
          rw [← hrest]
          exact List.mem_cons_self
        | cons z rest =>
          obtain ⟨rfl, -⟩ := List.cons.inj hrest
          exact ⟨since, rest, rfl, rfl⟩
  · cases tail with
    | nil => exact absurd (List.cons.inj htail).1 hfirst
    | cons y rest =>
      obtain ⟨rfl, -⟩ := List.cons.inj htail
      exact absurd (List.mem_append_right _ List.mem_cons_self) hleft

end Splitting

namespace DenseMatrix

variable {α : Type} [Scalar α] {system : DenseMatrix α} {method : Method}

/-- Every copy after a column stands in the reduction of a method that starts. -/
theorem starts_of_copy {before after : List (Step α)} {k : ℕ} {copy : DenseMatrix α}
    (h : (system.attempt method).steps = before ++ .snapshot (.afterColumn k) copy :: after) :
    ∃ since rest, before =
        system.openingSteps method ++ .snapshot .initial (system.startMatrix method) :: since ∧
      (system.reduction method).steps = since ++ .snapshot (.afterColumn k) copy :: rest := by
  by_cases hstarts : Starts system method
  · obtain ⟨reading, closing, hsteps, hreading, hclosing⟩ := steps_attempt_of_starts hstarts
    refine split_of_middle (hsteps.symm.trans h) ?_ (by simp) ?_
    · exact (system.inPhase_openingSteps method).notMem (by simp [Step.phase])
    · rw [List.mem_append]
      exact not_or.mpr ⟨hreading.notMem (by simp [Step.phase]),
        hclosing.notMem (by simp [Step.phase])⟩
  · obtain ⟨opening, closing, hsteps, hopening, hclosing⟩ := steps_attempt_of_not_starts hstarts
    have hmem : .snapshot (.afterColumn k) copy ∈ opening ++ closing := by
      rw [← hsteps, h]
      simp
    rcases List.mem_append.mp hmem with hmem | hmem
    · exact absurd hmem (hopening.notMem (by simp [Step.phase]))
    · exact absurd hmem (hclosing.notMem (by simp [Step.phase]))

theorem initial_notMem_reduceFrom (work start : DenseMatrix α) (sweep : Sweep) (k left : ℕ) :
    .snapshot .initial start ∉ (work.reduceFrom sweep k left).steps := by
  induction left generalizing k work with
  | zero => exact List.not_mem_nil
  | succ left ih =>
    rw [reduceFrom_succ]
    split_ifs
    · simp
    · rw [columnSteps_eq, List.mem_append, List.mem_append]
      rintro ((h | h) | h)
      · exact ne_snapshot_of_mem_operations h _ _ rfl
      · simp at h
      · exact ih _ _ h

theorem extracted_notMem_checkResiduals (system : DenseMatrix α) (rs x : List α) (row : ℕ)
    (worst : α) : .solutionExtracted x ∉ (system.checkResiduals row worst rs).steps := by
  induction rs generalizing row worst with
  | nil => exact List.not_mem_nil
  | cons r rs ih =>
    simp only [checkResiduals]
    by_cases hr : Scalar.isFinite (Scalar.abs r) = true
    · rw [if_pos hr]
      simpa using ih _ _
    · rw [if_neg hr]
      exact List.not_mem_nil

theorem eq_of_extracted_mem_check {x y : List α}
    (h : .solutionExtracted x ∈ (system.check y).steps) : x = y := by
  unfold check at h
  split_ifs at h
  · rcases List.mem_cons.mp h with h | h
    · exact Step.solutionExtracted.inj h
    · cases hr : system.residuals y with
      | ok rs =>
        rw [hr] at h
        exact absurd h (system.extracted_notMem_checkResiduals rs x 0 0)
      | error e =>
        rw [hr] at h
        exact absurd h List.not_mem_nil
  · exact absurd h List.not_mem_nil

theorem candidate_of_extracted {x : List α}
    (h : .solutionExtracted x ∈ (system.attempt method).steps) :
    (system.strategy method).outcome = .ok (.candidate x) := by
  have hnot : .solutionExtracted x ∉ (system.strategy method).steps :=
    fun hmem => phase_ne_closing_of_mem_strategy hmem rfl
  cases hstrategy : (system.strategy method).outcome with
  | error e =>
    rw [attempt_of_failed hstrategy] at h
    simp [hnot] at h
  | ok finding =>
    cases finding with
    | stopped s =>
      rw [attempt_eq_of_stopped hstrategy] at h
      exact absurd h hnot
    | candidate y =>
      have hmem : .solutionExtracted x ∈ (system.check y).steps := by
        cases hcheck : (system.check y).outcome with
        | ok r =>
          rw [attempt_of_checked hstrategy hcheck] at h
          simpa [hnot] using h
        | error e =>
          rw [attempt_of_refused hstrategy hcheck] at h
          simpa [hnot] using h
      rw [eq_of_extracted_mem_check hmem]

theorem extracted_mem_check {x : List α} {r : α} (h : (system.check x).outcome = .ok r) :
    .solutionExtracted x ∈ (system.check x).steps := by
  unfold check at h ⊢
  split_ifs at h ⊢
  · exact List.mem_cons_self
  · cases h

/-- A candidate is read off the last copy, and nothing but this is recorded as a reading. -/
theorem steps_attempt_of_candidate {x : List α}
    (h : (system.strategy method).outcome = .ok (.candidate x)) :
    ∃ work before closing, (system.reduction method).outcome = .ok work ∧
      x = system.readOff work method ∧
      (system.attempt method).steps = before ++ .snapshot (.afterColumn (system.rows - 1)) work ::
        (system.readingSteps work method ++ closing) ∧
      (∀ step ∈ before, step.phase ≠ .reading) ∧ InPhase .closing closing := by
  obtain ⟨hstarts, work, hwork, hx⟩ := reduced_of_candidate h
  obtain ⟨closing, hsteps, hclosing⟩ := system.steps_attempt method
  obtain ⟨hpos, -⟩ := isAugmented_iff.mp (validate_eq_ok_iff.mp hstarts.valid).1
  have hcount : (system.startMatrix method).rows = system.rows - 1 + 1 := by
    rw [rows_startMatrix]
    omega
  have hreduce := hwork
  rw [reduction, reduce, hcount] at hreduce
  obtain ⟨earlier, hearlier⟩ := last_copy_of_reduceFrom hreduce
  have hreduction : (system.reduction method).steps =
      earlier ++ [.snapshot (.afterColumn (system.rows - 1)) work] := by
    rw [reduction, reduce, hcount, hearlier, Nat.zero_add]
  refine ⟨work, system.openingSteps method ++
    .snapshot .initial (system.startMatrix method) :: earlier, closing, hwork, hx, ?_, ?_, hclosing⟩
  · rw [hsteps, strategy_of_reduced hstarts hwork, hreduction]
    simp
  · intro step hstep
    rcases List.mem_append.mp hstep with hstep | hstep
    · rw [system.inPhase_openingSteps method step hstep]
      decide
    · rcases List.mem_cons.mp hstep with rfl | hstep
      · simp [Step.phase]
      · have hmem : step ∈ (system.reduction method).steps := by
          rw [hreduction]
          exact List.mem_append_left _ hstep
        rw [system.inPhase_reduction method step hmem]
        decide

omit [Scalar α] in
theorem backSubstituted_mem_substitutions_iff {x : List α} {i : ℕ} {v : α} :
    .backSubstituted i v ∈ substitutions x ↔ x[i]? = some v := by
  rw [substitutions, List.mem_reverse, List.mem_map]
  constructor
  · rintro ⟨⟨value, index⟩, hmem, heq⟩
    cases heq
    exact List.mem_zipIdx_iff_getElem?.mp hmem
  · exact fun h => ⟨(v, i), List.mem_zipIdx_iff_getElem?.mpr h, rfl⟩

/-- How the last copy of the matrix and the record determine a solution: by back substitution, as
the last column, or as the product of the recorded inverse with the right-hand side. -/
def Determines (system last : DenseMatrix α) (steps : List (Step α)) (x : List α) : Method → Prop
  | .gauss => x.length = system.rows ∧
      (∀ i < system.rows, x.getD i 0 = last.entry i system.rows -
        sum (List.zipWith (· * ·)
          ((List.range' (i + 1) (system.rows - (i + 1))).map (last.entry i)) (x.drop (i + 1)))) ∧
      ∀ i v, .backSubstituted i v ∈ steps ↔ x[i]? = some v
  | .gaussJordan => last.column system.rows = .ok x
  | .inverseMatrix => ∃ inverse b,
      last.block 0 system.rows system.rows system.rows = .ok inverse ∧
      (∀ m, .inverse m ∈ steps ↔ m = inverse) ∧ system.rhs = .ok b ∧ inverse.multiply b = .ok x

theorem determines_of_reduced {work : DenseMatrix α} {steps : List (Step α)}
    (hvalid : system.validate = .ok ()) (hwork : (system.reduction method).outcome = .ok work)
    (hreading : ∀ step : Step α, step.phase = .reading →
      (step ∈ steps ↔ step ∈ system.readingSteps work method)) :
    Determines system work steps (system.readOff work method) method := by
  obtain ⟨haug, -⟩ := validate_eq_ok_iff.mp hvalid
  obtain ⟨-, hcols⟩ := isAugmented_iff.mp haug
  cases method with
  | gauss =>
    have hshape : work.rows = system.rows ∧ work.cols = system.cols := rows_of_reduce hwork
    obtain ⟨hrows, -⟩ := hshape
    refine ⟨by simp [readOff, hrows], fun i hi => ?_, fun i v => ?_⟩
    · have hlater := work.drop_backSubstitute (i := 0) (Nat.succ_le_of_lt hi)
      have hvalue := getD_backSubstitute work hi
      rw [Nat.zero_add] at hlater
      rw [readOff, hrows, hvalue, hlater, hrows]
      rfl
    · rw [hreading _ rfl]
      exact backSubstituted_mem_substitutions_iff
  | gaussJordan =>
    have hshape : work.rows = system.rows ∧ work.cols = system.cols := rows_of_reduce hwork
    obtain ⟨hrows, hwidth⟩ := hshape
    have hcolumn := column_eq_rhsPart (m := work) (by omega)
    rwa [hrows] at hcolumn
  | inverseMatrix =>
    have hshape : work.rows = system.rows ∧ work.cols = 2 * system.rows := rows_of_reduce hwork
    refine ⟨_, _, block_eq_rightHalf hshape.1 hshape.2, fun m => ?_, rhs_of_isAugmented haug,
      multiply_rightHalf system work⟩
    rw [hreading _ rfl]
    simp [readingSteps]

end DenseMatrix

/-- The record of an attempt over doubles is a complete derivation. Its row operations, replayed
from the only initial copy, reach every later copy, also when the attempt fails. A solution that was
extracted follows from the last copy, and every reported one was extracted. -/
theorem replay_reaches_every_copy (system : DenseMatrix Float) (method : Method) :
    ∃ steps, (solve system method true).trace = some ⟨true, steps⟩ ∧
      (∀ before k copy after, steps = before ++ .snapshot (.afterColumn k) copy :: after →
        ∃ opening since,
          before = opening ++ .snapshot .initial (system.startMatrix method) :: since ∧
            (∀ m, .snapshot .initial m ∉ opening ++ since) ∧
            replay (system.startMatrix method) since = copy) ∧
      (∀ x, .solutionExtracted x ∈ steps → ∃ before last after,
        steps = before ++ .snapshot (.afterColumn (system.rows - 1)) last :: after ∧
          (∀ stage m, .snapshot stage m ∉ after) ∧ system.Determines last steps x method) ∧
      ∀ x, (solve system method true).solution = some x → .solutionExtracted x ∈ steps := by
  refine ⟨(system.attempt method).steps, trace_solve system method true, ?_, ?_, ?_⟩
  · intro before k copy after hsteps
    obtain ⟨since, rest, hbefore, hreduction⟩ := DenseMatrix.starts_of_copy hsteps
    have hretraced : Retraces (system.startMatrix method) (system.reduction method).steps :=
      DenseMatrix.retraces_reduceFrom (Nat.zero_add _).le
    rw [hreduction] at hretraced
    refine ⟨_, since, hbefore, fun m hm => ?_, hretraced.replay_eq⟩
    rcases List.mem_append.mp hm with hm | hm
    · exact (system.inPhase_openingSteps method).notMem (by simp [Step.phase]) hm
    · have hmem : .snapshot .initial m ∈ (system.reduction method).steps := by
        rw [hreduction]
        exact List.mem_append_left _ hm
      exact DenseMatrix.initial_notMem_reduceFrom _ _ _ _ _ hmem
  · intro x hx
    have hcandidate := DenseMatrix.candidate_of_extracted hx
    obtain ⟨work, before, closing, hwork, rfl, hsteps, hbefore, hclosing⟩ :=
      DenseMatrix.steps_attempt_of_candidate hcandidate
    have hvalid := (DenseMatrix.reduced_of_candidate hcandidate).1.valid
    refine ⟨before, work, _, hsteps, fun stage m hm => ?_,
      DenseMatrix.determines_of_reduced hvalid hwork fun step hphase => ?_⟩
    · rcases List.mem_append.mp hm with hm | hm
      · exact (system.inPhase_readingSteps work method).notMem (by simp [Step.phase]) hm
      · exact hclosing.notMem (by simp [Step.phase]) hm
    · have hbefore' : step ∉ before := fun hmem => hbefore step hmem hphase
      have hcopy : step ≠ .snapshot (.afterColumn (system.rows - 1)) work := by
        rintro rfl
        cases hphase
      have hclosing' : step ∉ closing := hclosing.notMem (by simp [hphase])
      simp [hsteps, hbefore', hcopy, hclosing']
  · intro x hx
    obtain ⟨r, hsolved⟩ := solved_of_solution_eq_some hx
    obtain ⟨-, hcheck, hsteps⟩ := DenseMatrix.attempt_eq_solved hsolved
    rw [hsteps]
    exact List.mem_append_right _ (DenseMatrix.extracted_mem_check hcheck)

/-- The elimination of this system fails in its second column, after the copy of the first. -/
theorem replay_of_failed_attempt :
    let system : DenseMatrix Float := ⟨2, 3, #[7, 7, 1, 1000000, 1000000, 0], rfl⟩
    (solve system .gauss true).error = some "zero pivot in column 2" ∧
      ∃ opening since copy after, (solve system .gauss true).trace =
          some ⟨true, (opening ++ .snapshot .initial system :: since) ++
            .snapshot (.afterColumn 0) copy :: after⟩ ∧
        replay system since = copy := by
  intro system
  have herror : (solve system .gauss true).error = some "zero pivot in column 2" := by
    decide +kernel
  obtain ⟨steps, htrace, hcopies, -⟩ := replay_reaches_every_copy system .gauss
  have hany : steps.any (fun step => match step with
      | .snapshot (.afterColumn 0) _ => true
      | _ => false) = true := by
    have hsteps : steps = (system.attempt .gauss).steps := by
      rw [trace_solve] at htrace
      exact (Trace.mk.inj (Option.some.inj htrace)).2.symm
    rw [hsteps]
    decide +kernel
  obtain ⟨step, hmem, hstep⟩ := List.any_eq_true.mp hany
  obtain ⟨before, after, rfl⟩ := List.append_of_mem hmem
  split at hstep
  · obtain ⟨opening, since, rfl, -, hreplay⟩ := hcopies _ _ _ _ rfl
    exact ⟨herror, opening, since, _, after, htrace, hreplay⟩
  · cases hstep

end DenseSystem
