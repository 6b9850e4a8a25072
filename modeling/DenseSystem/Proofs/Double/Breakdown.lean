import Mathlib.Data.List.GetD
import Mathlib.Tactic
import DenseSystem.Proofs.Double.Backward

/-! # What a unique solution hides

A solution is reported only when it and its residuals are finite. For the numbers behind it this
settles all but three kinds: a pivot that is infinite divides its row to zero, a determinant is
computed aside, and the left side that is shown beside a residual is computed after the check.
-/
namespace DenseSystem

variable {α : Type} [Scalar α]

section Sums

variable [Spoiling α]

private theorem isFinite_of_foldl_add {xs : List α} {start : α}
    (h : Scalar.isFinite (xs.foldl (· + ·) start) = true) :
    Scalar.isFinite start = true ∧ ∀ x ∈ xs, Scalar.isFinite x = true := by
  induction xs generalizing start with
  | nil => exact ⟨h, fun x hx => absurd hx List.not_mem_nil⟩
  | cons x xs ih =>
    obtain ⟨hsum, hrest⟩ := ih h
    obtain ⟨hstart, hx⟩ := Spoiling.of_add hsum
    exact ⟨hstart, List.forall_mem_cons.mpr ⟨hx, hrest⟩⟩

theorem isFinite_of_scalarProduct {f : ℕ → α} {start n : ℕ} {x : List α} (hlength : x.length = n)
    (h : Scalar.isFinite (scalarProduct ((List.range' start n).map f) x) = true) {c : ℕ}
    (hc : c < n) : Scalar.isFinite (f (start + c)) = true := by
  have hterms := (isFinite_of_foldl_add h).2
  have hlt : c < (List.zipWith (· * ·) ((List.range' start n).map f) x).length := by
    simp [hlength, hc]
  have hterm := hterms _ (List.getElem_mem hlt)
  rw [List.getElem_zipWith] at hterm
  simpa using (Spoiling.of_mul hterm).1

end Sums

namespace DenseMatrix

section Results

variable [Spoiling α] {system work : DenseMatrix α} {n : ℕ}

/-- A matrix with nothing but ones on and zeros off the diagonal of its first columns is finite if
the columns to their right are. -/
theorem entriesFinite_of_all (h : ReducedUpTo .all n work) (hrows : work.rows = n)
    (hright : ∀ i < n, ∀ j, n ≤ j → j < work.cols → Scalar.isFinite (work.entry i j) = true) :
    work.EntriesFinite := by
  intro i hi j hj
  rcases lt_or_ge j n with hjn | hnj
  · obtain ⟨hone, hzero⟩ := h j hjn
    by_cases hij : i = j
    · rw [hij, hone]
      exact Spoiling.isFinite_one
    · exact Spoiling.of_isZero (hzero i hi (decide_eq_true hij))
  · exact hright i (by omega) j hnj hj

/-- What the sweep through all rows leaves is finite if its last column is. -/
theorem entriesFinite_of_rhsPart (haug : system.isAugmented = true)
    (hwork : (system.reduce .all).outcome = .ok work)
    (hx : ∀ v ∈ work.rhsPart, Scalar.isFinite v = true) : work.EntriesFinite := by
  obtain ⟨-, hshape⟩ := isAugmented_iff.mp haug
  obtain ⟨hrows, hcols⟩ := rows_of_reduce hwork
  have h := reducedUpTo_reduce Spoiling.isZero_zero (by omega) hwork
  apply entriesFinite_of_all h hrows
  intro i hi j hnj hj
  rw [show j = work.rows by omega]
  exact hx _ (List.mem_map_of_mem (f := (work.entry · work.rows)) (List.mem_range.mpr (by omega)))

/-- What the sweep through all rows leaves beside an inverse is finite if a product with the inverse
is. -/
theorem entriesFinite_of_inverseProduct
    (hwork : (system.coefficientPart.besideIdentity.reduce .all).outcome = .ok work)
    (hx : ∀ v ∈ system.inverseProduct work, Scalar.isFinite v = true) : work.EntriesFinite := by
  have hshape : work.rows = system.rows ∧ work.cols = 2 * system.rows := rows_of_reduce hwork
  have hwide : system.rows ≤ 2 * system.rows := by omega
  have h : ReducedUpTo .all system.coefficientPart.besideIdentity.rows work :=
    reducedUpTo_reduce Spoiling.isZero_zero hwide hwork
  apply entriesFinite_of_all h hshape.1
  intro i (hi : i < system.rows) j (hnj : system.rows ≤ j) hj
  have hproduct := hx _ (List.mem_map_of_mem (List.mem_range.mpr hi))
  rw [List.range_eq_range'] at hproduct
  have hentry := isFinite_of_scalarProduct system.length_rhsPart hproduct
    (show j - system.rows < system.rows by omega)
  rw [Nat.zero_add, work.entry_rightHalf hi (by omega),
    show system.rows + (j - system.rows) = j by omega] at hentry
  exact hentry

/-- What the sweep below the pivots leaves is finite if the back substitution is. -/
theorem entriesFinite_of_backSubstitute (haug : system.isAugmented = true)
    (hwork : (system.reduce .below).outcome = .ok work)
    (hx : ∀ v ∈ work.backSubstitute 0 work.rows, Scalar.isFinite v = true) :
    work.EntriesFinite := by
  obtain ⟨-, hshape⟩ := isAugmented_iff.mp haug
  obtain ⟨hrows, hcols⟩ := rows_of_reduce hwork
  have h := reducedUpTo_reduce Spoiling.isZero_zero (by omega) hwork
  rw [← hrows] at h
  intro i hi j hj
  have hvalue : Scalar.isFinite ((work.backSubstitute 0 work.rows).getD i 0) = true := by
    rw [List.getD_eq_getElem _ _ (by simpa using hi)]
    exact hx _ (List.getElem_mem _)
  rw [getD_backSubstitute work hi] at hvalue
  obtain ⟨hrhs, hlater⟩ := Spoiling.of_sub hvalue
  rcases lt_trichotomy i j with hij | rfl | hji
  · rcases Nat.lt_or_ge j work.rows with hjn | hnj
    · have hentry := isFinite_of_scalarProduct (length_backSubstitute work _ _) hlater
        (show j - (i + 1) < work.rows - (i + 1) by omega)
      rwa [show i + 1 + (j - (i + 1)) = j by omega] at hentry
    · rwa [show j = work.rows by omega]
  · rw [(h i hi).1]
    exact Spoiling.isFinite_one
  · exact Spoiling.of_isZero ((h j (by omega)).2 i hi (decide_eq_true hji))

end Results

/-! ## The record of a strategy -/

theorem stepFinite_classified (c : Classification) :
    ∀ v ∈ (Step.classified c : Step α).numbers, Scalar.isFinite v = true :=
  fun _ hv => absurd hv List.not_mem_nil

theorem stepsFinite_substitutions {x : List α} (hx : ∀ v ∈ x, Scalar.isFinite v = true) :
    StepsFinite (substitutions x) := by
  intro step hstep v hv
  obtain ⟨⟨value, i⟩, hmem, rfl⟩ := List.mem_map.mp (List.mem_reverse.mp hstep)
  rw [List.mem_singleton.mp hv]
  exact hx _ (List.fst_mem_of_mem_zipIdx hmem)

theorem stepsFinite_residualSteps {system : DenseMatrix α} {rs : List α} {row : ℕ}
    (hrhs : ∀ i, row ≤ i → i < row + rs.length →
      Scalar.isFinite (system.entry i system.rows) = true)
    (herror : ∀ r ∈ rs, Scalar.isFinite (Scalar.abs r) = true)
    (hlhs : ∀ i l r e, .residual i l r e ∈ system.residualSteps row rs →
      Scalar.isFinite l = true) : StepsFinite (system.residualSteps row rs) := by
  intro step hstep v hv
  obtain ⟨⟨r, i⟩, hmem, rfl⟩ := List.mem_map.mp hstep
  have hl := hlhs _ _ _ _ hstep
  obtain ⟨hlow, hhigh, hget⟩ := List.mem_zipIdx hmem
  have hr : r ∈ rs := List.fst_mem_of_mem_zipIdx hmem
  simp only [Step.numbers, List.mem_cons, List.not_mem_nil, or_false] at hv
  rcases hv with rfl | rfl | rfl
  · exact hl
  · exact hrhs i hlow hhigh
  · exact herror r hr

theorem isFinite_worstResidual {worst : α} {rs : List α}
    (hworst : Scalar.isFinite worst = true)
    (h : ∀ r ∈ rs, Scalar.isFinite (Scalar.abs r) = true) :
    Scalar.isFinite (worstResidual worst rs) = true := by
  induction rs generalizing worst with
  | nil => exact hworst
  | cons r rs ih =>
    rw [List.forall_mem_cons] at h
    refine ih ?_ h.2
    change Scalar.isFinite (if _ then _ else _) = true
    split_ifs
    · exact h.1
    · exact hworst

section Strategies

variable [Spoiling α] {system : DenseMatrix α}

theorem stepsFinite_of_reduce {start result : DenseMatrix α} {sweep : Sweep}
    (hcols : start.rows < start.cols) (h : (start.reduce sweep).outcome = .ok result)
    (hresult : result.EntriesFinite)
    (hpivots : ∀ k p v, .pivotSelected k p v ∈ (start.reduce sweep).steps →
      Scalar.isFinite v = true) :
    StepsFinite (.snapshot .initial start :: (start.reduce sweep).steps) := by
  obtain ⟨hstart, hsteps⟩ :=
    finite_of_reduceFrom (Nat.zero_add start.rows).le hcols h hresult hpivots
  exact StepsFinite.cons (forall_mem_data_iff.mpr hstart) hsteps

theorem stepsFinite_gauss {x : List α} (h : system.gauss.outcome = .ok (.candidate x))
    (hx : ∀ v ∈ x, Scalar.isFinite v = true)
    (hpivots : ∀ k p v, .pivotSelected k p v ∈ system.gauss.steps → Scalar.isFinite v = true) :
    StepsFinite system.gauss.steps := by
  obtain ⟨hvalid, -, work, hwork, rfl, hsteps⟩ := gauss_eq_candidate h
  obtain ⟨haug, -⟩ := validate_eq_ok_iff.mp hvalid
  obtain ⟨-, hshape⟩ := isAugmented_iff.mp haug
  have hresult := entriesFinite_of_backSubstitute haug hwork hx
  rw [hsteps] at hpivots ⊢
  have hreduce := stepsFinite_of_reduce (by omega) hwork hresult fun k p v hv =>
    hpivots k p v (List.mem_cons_of_mem _ (List.mem_cons_of_mem _ (List.mem_append_left _ hv)))
  exact StepsFinite.cons (stepFinite_classified _)
    (hreduce.append (stepsFinite_substitutions hx))

theorem stepsFinite_gaussJordan {x : List α}
    (h : system.gaussJordan.outcome = .ok (.candidate x))
    (hx : ∀ v ∈ x, Scalar.isFinite v = true)
    (hpivots : ∀ k p v, .pivotSelected k p v ∈ system.gaussJordan.steps →
      Scalar.isFinite v = true) : StepsFinite system.gaussJordan.steps := by
  obtain ⟨hvalid, -, work, hwork, rfl, hsteps⟩ := gaussJordan_eq_candidate h
  obtain ⟨haug, -⟩ := validate_eq_ok_iff.mp hvalid
  obtain ⟨-, hshape⟩ := isAugmented_iff.mp haug
  have hresult := entriesFinite_of_rhsPart haug hwork hx
  rw [hsteps] at hpivots ⊢
  have hreduce := stepsFinite_of_reduce (by omega) hwork hresult fun k p v hv =>
    hpivots k p v (List.mem_cons_of_mem _ (List.mem_cons_of_mem _ hv))
  exact StepsFinite.cons (stepFinite_classified _) hreduce

theorem stepsFinite_inverseMatrix {x : List α}
    (h : system.inverseMatrix.outcome = .ok (.candidate x))
    (hx : ∀ v ∈ x, Scalar.isFinite v = true)
    (hpivots : ∀ k p v, .pivotSelected k p v ∈ system.inverseMatrix.steps →
      Scalar.isFinite v = true)
    (hdet : ∀ v, .determinant v ∈ system.inverseMatrix.steps → Scalar.isFinite v = true) :
    StepsFinite system.inverseMatrix.steps := by
  obtain ⟨hvalid, -, -, work, hwork, rfl, hsteps⟩ := inverseMatrix_eq_product h
  obtain ⟨haug, -⟩ := validate_eq_ok_iff.mp hvalid
  obtain ⟨hpos, -⟩ := isAugmented_iff.mp haug
  have hrows : work.rows = system.rows ∧ work.cols = 2 * system.rows := rows_of_reduce hwork
  have hresult := entriesFinite_of_inverseProduct hwork hx
  have hinverse : (work.rightHalf system.rows).EntriesFinite := by
    intro i (hi : i < system.rows) j (hj : j < system.rows)
    rw [work.entry_rightHalf hi hj]
    exact hresult i (by omega) _ (by omega)
  rw [hsteps] at hpivots hdet ⊢
  have hstart : system.rows < 2 * system.rows := by omega
  have hreduce := stepsFinite_of_reduce hstart hwork hresult fun k p v hv =>
    hpivots k p v (List.mem_cons_of_mem _ (List.mem_cons_of_mem _ (List.mem_cons_of_mem _
      (List.mem_append_left _ hv))))
  refine StepsFinite.cons (fun v hv => ?_) (StepsFinite.cons (stepFinite_classified _)
    (hreduce.append (StepsFinite.cons (forall_mem_data_iff.mpr hinverse) ?_)))
  · rw [List.mem_singleton.mp hv]
    exact hdet _ List.mem_cons_self
  · exact fun step hstep => absurd hstep List.not_mem_nil

/-- A strategy with a finite candidate records finite values only, if its pivots and the determinant
are finite. -/
theorem stepsFinite_strategy {method : Method} {x : List α}
    (h : (system.strategy method).outcome = .ok (.candidate x))
    (hx : ∀ v ∈ x, Scalar.isFinite v = true)
    (hpivots : ∀ k p v, .pivotSelected k p v ∈ (system.strategy method).steps →
      Scalar.isFinite v = true)
    (hdet : ∀ v, .determinant v ∈ (system.strategy method).steps → Scalar.isFinite v = true) :
    StepsFinite (system.strategy method).steps := by
  cases method with
  | gauss => exact stepsFinite_gauss h hx hpivots
  | gaussJordan => exact stepsFinite_gaussJordan h hx hpivots
  | inverseMatrix => exact stepsFinite_inverseMatrix h hx hpivots hdet

end Strategies

end DenseMatrix

/-! ## Reports -/

/-- The numbers of a step that no check of the solution protects. -/
def Step.unchecked : Step α → List α
  | determinant value => [value]
  | pivotSelected _ _ value => [value]
  | residual _ lhs _ _ => [lhs]
  | _ => []

omit [Scalar α] in
theorem Step.mem_numbers_of_unchecked {step : Step α} {v : α} (h : v ∈ step.unchecked) :
    v ∈ step.numbers := by
  cases step with
  | determinant value => exact h
  | pivotSelected column row value => exact h
  | residual row lhs rhs error =>
    rw [List.mem_singleton.mp h]
    exact List.mem_cons_self
  | _ => exact absurd h List.not_mem_nil

namespace Report

def steps (report : Report α) : List (Step α) := (report.trace.map Trace.steps).getD []

def numbers (report : Report α) : List α :=
  report.solution.getD [] ++ report.maxResidual.toList ++ report.determinant.toList ++
    report.steps.flatMap Step.numbers

end Report

omit [Scalar α] in
theorem determinant_mem_of_findSome? {steps : List (Step α)} {d : α}
    (h : steps.findSome? Step.determinant? = some d) : .determinant d ∈ steps := by
  obtain ⟨step, hstep, hd⟩ := List.exists_of_findSome?_eq_some h
  cases step with
  | determinant value =>
    cases hd
    exact hstep
  | _ => cases hd

section Attempts

variable [Spoiling α]

/-- The record of an attempt that found a solution is finite where no check protects it only if it
is finite throughout. -/
theorem stepsFinite_attempt {system : DenseMatrix α} {method : Method} {x : List α} {r : α}
    (h : (system.attempt method).outcome = .ok (.solved x r))
    (hunchecked : ∀ step ∈ (system.attempt method).steps, ∀ v ∈ step.unchecked,
      Scalar.isFinite v = true) :
    StepsFinite (system.attempt method).steps := by
  obtain ⟨hx, hcheck, hsteps⟩ := DenseMatrix.attempt_eq_solved h
  obtain ⟨haug, hfinite⟩ := DenseMatrix.validate_eq_ok_iff.mp (DenseMatrix.validate_of_candidate hx)
  obtain ⟨-, hshape⟩ := DenseMatrix.isAugmented_iff.mp haug
  have hlength := DenseMatrix.length_of_candidate hx
  obtain ⟨hxfinite, hresiduals⟩ := DenseMatrix.isFinite_of_check haug hlength hcheck
  have hvalues : ∀ v ∈ x, Scalar.isFinite v = true := List.all_eq_true.mp hxfinite
  rw [hsteps] at hunchecked ⊢
  refine StepsFinite.append (DenseMatrix.stepsFinite_strategy hx hvalues ?_ ?_) ?_
  · exact fun k p v hv => hunchecked _ (List.mem_append_left _ hv) v List.mem_cons_self
  · exact fun v hv => hunchecked _ (List.mem_append_left _ hv) v List.mem_cons_self
  · rw [DenseMatrix.check_of_isFinite haug hlength hxfinite hresiduals] at hunchecked ⊢
    refine StepsFinite.cons hvalues (DenseMatrix.stepsFinite_residualSteps ?_ ?_ ?_)
    · intro i _ hi
      rw [Nat.zero_add, List.length_map, List.length_range] at hi
      exact DenseMatrix.isFinite_iff.mp hfinite i hi system.rows (by omega)
    · rw [List.forall_mem_map]
      exact fun i hi => hresiduals i (List.mem_range.mp hi)
    · exact fun i l r e hl => hunchecked _
        (List.mem_append_right _ (List.mem_cons_of_mem _ hl)) l List.mem_cons_self

theorem isFinite_maxResidual {system : DenseMatrix α} {method : Method} {x : List α} {r : α}
    (h : (system.attempt method).outcome = .ok (.solved x r)) :
    (∀ v ∈ x, Scalar.isFinite v = true) ∧ Scalar.isFinite r = true := by
  obtain ⟨hxfinite, hresiduals, rfl⟩ := DenseMatrix.checked_of_solved h
  refine ⟨List.all_eq_true.mp hxfinite,
    DenseMatrix.isFinite_worstResidual Spoiling.isFinite_zero ?_⟩
  rw [List.forall_mem_map]
  exact fun i hi => hresiduals i (List.mem_range.mp hi)

end Attempts

/-- Behind a unique solution over doubles every number is finite exactly when the pivots, the
determinant and the left sides of the residuals are; the solution and its largest residual are
finite in any case. -/
theorem numbers_isFinite_iff_unchecked (system : DenseMatrix Float) (method : Method)
    (h : (solve system method true).status = .unique) :
    ∃ x r, (solve system method true).solution = some x ∧
      (solve system method true).maxResidual = some r ∧
      (∀ v ∈ x, Scalar.isFinite v = true) ∧ Scalar.isFinite r = true ∧
      ((∀ v ∈ (solve system method true).numbers, Scalar.isFinite v = true) ↔
        ∀ step ∈ (solve system method true).steps, ∀ v ∈ step.unchecked,
          Scalar.isFinite v = true) := by
  obtain ⟨x, r, hrun⟩ := solved_of_status_eq_unique h
  obtain ⟨hx, hr⟩ := isFinite_maxResidual hrun
  rw [solve_of_solved true hrun]
  refine ⟨x, r, rfl, rfl, hx, hr, fun hall step hstep v hv => ?_, fun hunchecked v hv => ?_⟩
  · exact hall v (List.mem_append_right _
      (List.mem_flatMap.mpr ⟨step, hstep, Step.mem_numbers_of_unchecked hv⟩))
  · have hsteps := stepsFinite_attempt hrun hunchecked
    rcases List.mem_append.mp hv with hv | hv
    · rcases List.mem_append.mp hv with hv | hv
      · rcases List.mem_append.mp hv with hv | hv
        · exact hx v hv
        · rw [List.mem_singleton.mp hv]
          exact hr
      · rw [Option.mem_toList] at hv
        exact hsteps _ (determinant_mem_of_findSome? hv) v List.mem_cons_self
    · obtain ⟨step, hstep, hmem⟩ := List.mem_flatMap.mp hv
      exact hsteps step hstep v hmem

/-- The elimination of the first column doubles the largest double, and the infinite pivot that
follows makes both unknowns zero, which leaves a residual of two. -/
theorem hidden_infinite_pivot :
    let largest := Float.ofBits 0x7fefffffffffffff
    let system : DenseMatrix Float := ⟨2, 3, #[1, -largest, 0, 1, largest, 2], rfl⟩
    (solve system .gauss true).status = .unique ∧
      (∃ x r, (solve system .gauss true).solution = some x ∧
        (solve system .gauss true).maxResidual = some r ∧
        (∀ v ∈ x, Scalar.isFinite v = true) ∧ Scalar.isFinite r = true) ∧
      ¬ ∀ v ∈ (solve system .gauss true).numbers, Scalar.isFinite v = true := by
  intro largest system
  have hunique : (solve system .gauss true).status = .unique := by decide +kernel
  obtain ⟨x, r, hx, hr, hxfinite, hrfinite, hiff⟩ :=
    numbers_isFinite_iff_unchecked system .gauss hunique
  refine ⟨hunique, ⟨x, r, hx, hr, hxfinite, hrfinite⟩, fun hall => ?_⟩
  have hpivot : ¬ ∀ step ∈ (solve system .gauss true).steps, ∀ v ∈ step.unchecked,
      Scalar.isFinite v = true := by decide +kernel
  exact hpivot (hiff.mp hall)

end DenseSystem
