import Mathlib
import DenseSystem.Proofs.Double.Backward
import DenseSystem.Proofs.Elimination.Rearranged
import DenseSystem.Proofs.Solver.Language

/-! # Systems with their equations in another order

The two eliminations give the same result for the same equations in any order, if no pivot is
disputed: from equal reduced matrices they read off equal vectors, and the largest residual does not
depend on the order in which the residuals are compared.
-/
namespace DenseSystem

variable {α : Type} [Scalar α]

namespace DenseMatrix

/-! ## The largest residual -/

def larger (worst r : α) : α :=
  if Scalar.lt worst (Scalar.abs r) then Scalar.abs r else worst

variable [OrderedMagnitudes α] {x y : α} {rs ss : List α}

theorem larger_comm_of_lt (h : Scalar.lt (Scalar.abs x) (Scalar.abs y) = true) (z : α) :
    larger (larger z x) y = larger (larger z y) x := by
  have hasymm := OrderedMagnitudes.lt_asymm h
  cases hzx : Scalar.lt z (Scalar.abs x) with
  | true =>
    have hzy := OrderedMagnitudes.lt_trans hzx h
    simp [larger, hzx, hzy, h, hasymm]
  | false =>
    cases hzy : Scalar.lt z (Scalar.abs y) with
    | true => simp [larger, hzx, hzy, hasymm]
    | false => simp [larger, hzx, hzy]

/-- The order of two comparisons does not count: one magnitude is larger, or they are the same. -/
theorem larger_comm (hx : Scalar.isFinite (Scalar.abs x) = true)
    (hy : Scalar.isFinite (Scalar.abs y) = true) (z : α) :
    larger (larger z x) y = larger (larger z y) x := by
  cases hxy : Scalar.lt (Scalar.abs x) (Scalar.abs y) with
  | true => exact larger_comm_of_lt hxy z
  | false =>
    cases hyx : Scalar.lt (Scalar.abs y) (Scalar.abs x) with
    | true => exact (larger_comm_of_lt hyx z).symm
    | false =>
      have heq : Scalar.abs x = Scalar.abs y :=
        OrderedMagnitudes.abs_eq_abs (OrderedMagnitudes.isNaN_of_isFinite_abs hx)
          (OrderedMagnitudes.isNaN_of_isFinite_abs hy) hxy hyx
      simp only [larger, heq]

theorem worstResidual_perm (hperm : rs.Perm ss)
    (h : ∀ r ∈ rs, Scalar.isFinite (Scalar.abs r) = true) (worst : α) :
    worstResidual worst rs = worstResidual worst ss :=
  List.Perm.foldl_eq' (f := larger) hperm (fun _ hx _ hy z => larger_comm (h _ hx) (h _ hy) z) worst

theorem outcome_checkResiduals_perm (system other : DenseMatrix α) (hperm : rs.Perm ss) (row : ℕ)
    (worst : α) : (system.checkResiduals row worst rs).outcome =
      (other.checkResiduals row worst ss).outcome := by
  have hfails {system : DenseMatrix α} {rs : List α} {r : α} (hr : r ∈ rs)
      (hbad : Scalar.isFinite (Scalar.abs r) = false) :
      (system.checkResiduals row worst rs).outcome = .error (.nonFinite .residual) := by
    rcases Language.checkResiduals_cases system rs row worst with hall | ⟨_, _, -, -, hcheck⟩
    · rw [hall r hr] at hbad
      cases hbad
    · rw [hcheck]
  rcases Language.checkResiduals_cases system rs row worst with hall | ⟨count, hlt, -, hbad, -⟩
  · have hall' : ∀ r ∈ ss, Scalar.isFinite (Scalar.abs r) = true :=
      fun r hr => hall r (hperm.mem_iff.mpr hr)
    rw [checkResiduals_of_isFinite system hall, checkResiduals_of_isFinite other hall',
      worstResidual_perm hperm hall]
  · have hmem := List.getElem_mem hlt
    rw [hfails hmem hbad, hfails (hperm.mem_iff.mp hmem) hbad]

/-! ## The check of a candidate -/

omit [OrderedMagnitudes α] in
theorem residualAt_permuteRows (system : DenseMatrix α) (σ : Equiv.Perm (Fin system.rows))
    (haug : system.isAugmented = true) (x : List α) (i : Fin system.rows) :
    (system.permuteRows σ).residualAt x i = system.residualAt x (σ i) := by
  obtain ⟨-, hcols⟩ := isAugmented_iff.mp haug
  have hentry : ∀ j < system.cols, (system.permuteRows σ).entry i j = system.entry (σ i) j :=
    fun j hj => entry_permuteRows σ i hj
  rw [residualAt, residualAt, rows_permuteRows, hentry _ (by omega)]
  congr 2
  refine List.map_congr_left fun j hj => hentry j ?_
  rw [List.mem_range] at hj
  omega

omit [OrderedMagnitudes α] in
theorem residuals_perm (system : DenseMatrix α) (σ : Equiv.Perm (Fin system.rows))
    (haug : system.isAugmented = true) (x : List α) :
    ((List.range system.rows).map ((system.permuteRows σ).residualAt x)).Perm
      ((List.range system.rows).map (system.residualAt x)) := by
  have hmap (f : ℕ → α) :
      (List.range system.rows).map f = List.ofFn fun i : Fin system.rows => f i := by
    rw [List.ofFn_eq_map, ← List.map_coe_finRange_eq_range, List.map_map]
    rfl
  have hrows : (fun i : Fin system.rows => (system.permuteRows σ).residualAt x i) =
      (fun i : Fin system.rows => system.residualAt x i) ∘ σ :=
    funext fun i => system.residualAt_permuteRows σ haug x i
  rw [hmap, hmap, hrows]
  exact σ.ofFn_comp_perm _

theorem outcome_check_permuteRows (system : DenseMatrix α) (σ : Equiv.Perm (Fin system.rows))
    (haug : system.isAugmented = true) {x : List α} (hlength : x.length = system.rows) :
    ((system.permuteRows σ).check x).outcome = (system.check x).outcome := by
  have haug' : (system.permuteRows σ).isAugmented = true := haug
  unfold check
  split_ifs
  · rw [residuals_eq haug' hlength, residuals_eq haug hlength,
      Derivation.ofExcept_bind_of_ok rfl, Derivation.ofExcept_bind_of_ok rfl]
    exact outcome_checkResiduals_perm _ _ (system.residuals_perm σ haug x) 0 0
  · rfl

/-! ## The attempt -/

omit [OrderedMagnitudes α] in
theorem isFinite_permuteRows {system : DenseMatrix α} (σ : Equiv.Perm (Fin system.rows))
    (h : system.isFinite = true) : (system.permuteRows σ).isFinite = true := by
  rw [isFinite_iff] at h ⊢
  intro i hi j hj
  rw [entry_permuteRows σ ⟨i, hi⟩ hj]
  exact h _ (σ ⟨i, hi⟩).isLt j hj

omit [OrderedMagnitudes α] in
theorem outcome_attempt_of_candidate {system : DenseMatrix α} {method : Method} {x : List α}
    (h : (system.strategy method).outcome = .ok (.candidate x)) :
    (system.attempt method).outcome = (system.check x).outcome.map (Verdict.solved x) := by
  cases hcheck : (system.check x).outcome with
  | ok r => rw [attempt_of_checked h hcheck]; rfl
  | error e => rw [attempt_of_refused h hcheck]; rfl

theorem outcome_attempt_permuteRows {system : DenseMatrix α} {method : Method}
    (hmethod : method ≠ .inverseMatrix) (haug : system.isAugmented = true)
    (hfinite : system.isFinite = true) (hunique : system.classification.status = .unique)
    (hund : ∀ k < system.rows, ∀ work, system.Reaches method.sweep k work → work.Undisputed k)
    (σ : Equiv.Perm (Fin system.rows))
    (hunique' : (system.permuteRows σ).classification.status = .unique) :
    ((system.permuteRows σ).attempt method).outcome = (system.attempt method).outcome := by
  obtain ⟨-, hcols⟩ := isAugmented_iff.mp haug
  have hstart (m : DenseMatrix α) : m.startMatrix method = m := by
    cases method with
    | inverseMatrix => exact absurd rfl hmethod
    | _ => rfl
  have hread (m work : DenseMatrix α) : m.readOff work method = system.readOff work method := by
    cases method with
    | inverseMatrix => exact absurd rfl hmethod
    | _ => rfl
  have hstarts : Starts system method :=
    ⟨validate_eq_ok_iff.mpr ⟨haug, hfinite⟩, hunique, fun h => absurd h hmethod⟩
  have hstarts' : Starts (system.permuteRows σ) method :=
    ⟨validate_eq_ok_iff.mpr ⟨haug, isFinite_permuteRows σ hfinite⟩, hunique',
      fun h => absurd h hmethod⟩
  have hreduction : ((system.permuteRows σ).reduction method).outcome =
      (system.reduction method).outcome := by
    rw [reduction, reduction, hstart, hstart]
    exact outcome_reduce_permuteRows (by omega) hund σ
  cases hwork : (system.reduction method).outcome with
  | ok work =>
    have hx := congrArg Derivation.outcome (strategy_of_reduced hstarts hwork)
    have hx' := congrArg Derivation.outcome
      (strategy_of_reduced hstarts' (hreduction.trans hwork))
    rw [hread] at hx'
    rw [outcome_attempt_of_candidate hx, outcome_attempt_of_candidate hx',
      outcome_check_permuteRows system σ haug (length_of_candidate hx)]
  | error e =>
    have he := congrArg Derivation.outcome (strategy_of_stuck hstarts hwork)
    have he' := congrArg Derivation.outcome
      (strategy_of_stuck hstarts' (hreduction.trans hwork))
    rw [attempt_of_failed he, attempt_of_failed he']

end DenseMatrix

theorem report_of_outcome_eq {system other : DenseMatrix α} {method : Method}
    (h : (other.attempt method).outcome = (system.attempt method).outcome) (traced traced' : Bool) :
    (solve other method traced').status = (solve system method traced).status ∧
      (solve other method traced').solution = (solve system method traced).solution ∧
      (solve other method traced').maxResidual = (solve system method traced).maxResidual ∧
      (solve other method traced').error = (solve system method traced).error := by
  cases hrun : (system.attempt method).outcome with
  | ok verdict =>
    cases verdict with
    | solved x r =>
      rw [solve_of_solved traced hrun, solve_of_solved traced' (h.trans hrun)]
      exact ⟨rfl, rfl, rfl, rfl⟩
    | stopped s =>
      rw [solve_of_stopped traced hrun, solve_of_stopped traced' (h.trans hrun)]
      exact ⟨rfl, rfl, rfl, rfl⟩
  | error e =>
    rw [solve_of_failed traced hrun, solve_of_failed traced' (h.trans hrun)]
    exact ⟨rfl, rfl, rfl, rfl⟩

/-- The equations of a finite system may be given in any order. If no pivot is disputed and the ranks
promise a unique solution in both orders, both eliminations report the same for both: the same status,
solution and largest residual, and where they fail, the same failure. -/
theorem solve_permuteRows (system : DenseMatrix Float) (method : Method)
    (hmethod : method = .gauss ∨ method = .gaussJordan) (haug : system.isAugmented = true)
    (hfinite : system.isFinite = true)
    (hund : ∀ k < system.rows, ∀ work, system.Reaches method.sweep k work → work.Undisputed k)
    (σ : Equiv.Perm (Fin system.rows)) {c c' : Classification} (hc : classify system = .ok c)
    (hc' : classify (system.permuteRows σ) = .ok c') (hunique : c.status = .unique)
    (hunique' : c'.status = .unique) (traced traced' : Bool) :
    let report := solve system method traced
    let other := solve (system.permuteRows σ) method traced'
    other.status = report.status ∧ other.solution = report.solution ∧
      other.maxResidual = report.maxResidual ∧ other.error = report.error ∧
      ((system.permuteRows σ).attempt method).outcome = (system.attempt method).outcome := by
  have hmethod' : method ≠ .inverseMatrix := by
    rcases hmethod with rfl | rfl <;> decide
  have haug' : (system.permuteRows σ).isAugmented = true := haug
  rw [DenseMatrix.classify_of_isAugmented haug] at hc
  rw [DenseMatrix.classify_of_isAugmented haug'] at hc'
  cases hc
  cases hc'
  have houtcome := DenseMatrix.outcome_attempt_permuteRows hmethod' haug hfinite hunique hund σ
    hunique'
  obtain ⟨hstatus, hsolution, hresidual, herror⟩ := report_of_outcome_eq houtcome traced traced'
  exact ⟨hstatus, hsolution, hresidual, herror, houtcome⟩

/-- Three equations, with an undisputed pivot in each column, and the same with the first one last. -/
theorem solve_three_equations_rotated :
    let system : DenseMatrix Float := ⟨3, 4, #[1, 2, 3, 14, 4, 1, 1, 9, 2, 5, 1, 15], rfl⟩
    let rotated := system.permuteRows (finRotate 3)
    (∀ k < 3, (system.reducedTo .below k).Undisputed k) ∧
      rotated.pivotRow 0 0 ≠ system.pivotRow 0 0 ∧
      (solve system .gauss true).status = .unique ∧
      (solve rotated .gauss false).solution = (solve system .gauss true).solution := by
  intro system rotated
  have hund : ∀ k < 3, (system.reducedTo .below k).Undisputed k := by decide +kernel
  have hpivots : rotated.pivotRow 0 0 ≠ system.pivotRow 0 0 := by decide +kernel
  have hstatus : (solve system .gauss true).status = .unique := by decide +kernel
  have hunique : system.classification.status = .unique := by decide +kernel
  have hunique' : rotated.classification.status = .unique := by decide +kernel
  have hsame := solve_permuteRows system .gauss (.inl rfl) rfl (by decide +kernel)
    (fun k hk work hwork => hwork.eq_reducedTo hk.le ▸ hund k hk) (finRotate 3)
    (DenseMatrix.classify_of_isAugmented rfl) (DenseMatrix.classify_of_isAugmented rfl) hunique
    hunique' true false
  exact ⟨hund, hpivots, hstatus, hsame.2.1⟩

end DenseSystem
