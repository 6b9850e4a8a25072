import DenseSystem.Proofs.Solver.Check
import DenseSystem.Proofs.Solver.Course

/-! # The language of records

What a method can record, said without running it: the steps of a complete column, the steps up to
a column without pivot, what is read off and what is checked. Every record is a word of this
language, however the attempt ends, and its last step names the failure if there is one.
-/
namespace DenseSystem.Language

variable {α : Type} [Scalar α]

/-- The rows below or beside the pivot that are cleared, from the top, each with its factor. -/
structure Targets (rows : ℕ) (sweep : Sweep) (k : ℕ) (targets : List (ℕ × α)) : Prop where
  increasing : (targets.map Prod.fst).Pairwise (· < ·)
  row_lt : ∀ t ∈ targets, t.1 < rows
  reached : ∀ t ∈ targets, sweep.reaches k t.1 = true
  factor_ne : ∀ t ∈ targets, Scalar.isZero t.2 = false

inductive Column (rows cols : ℕ) (sweep : Sweep) (k : ℕ) : List (Step α) → Prop
  | complete {p : ℕ} {v : α} {targets : List (ℕ × α)} {copy : DenseMatrix α} (hp : k ≤ p)
      (hlt : p < rows) (hv : isNearZero v = false) (htargets : Targets rows sweep k targets)
      (hrows : copy.rows = rows) (hcols : copy.cols = cols) :
      Column rows cols sweep k
        (.pivotSelected k p v ::
          ((if p = k then [] else [.rowsSwapped k p]) ++
            .rowNormalized k v ::
              ((targets.map fun t => .rowEliminated t.1 k k t.2) ++
                [.snapshot (.afterColumn k) copy])))

/-- Complete columns from column `k` on, `left` of them. -/
inductive Columns (rows cols : ℕ) (sweep : Sweep) : ℕ → ℕ → List (Step α) → Prop
  | done (k : ℕ) : Columns rows cols sweep k 0 []
  | next {k left : ℕ} {column rest : List (Step α)} (hcolumn : Column rows cols sweep k column)
      (hrest : Columns rows cols sweep (k + 1) left rest) :
      Columns rows cols sweep k (left + 1) (column ++ rest)

/-- Columns from column `k` on, of which all are complete but the last, column `stuck`: there the
search for a pivot ends the elimination. -/
inductive Stuck (rows cols : ℕ) (sweep : Sweep) (stuck : ℕ) : ℕ → List (Step α) → Prop
  | pivot {p : ℕ} {v : α} (hp : stuck ≤ p) (hlt : p < rows) (hv : isNearZero v = true) :
      Stuck rows cols sweep stuck stuck [.pivotSelected stuck p v]
  | next {k : ℕ} {column rest : List (Step α)} (hcolumn : Column rows cols sweep k column)
      (hrest : Stuck rows cols sweep stuck (k + 1) rest) :
      Stuck rows cols sweep stuck k (column ++ rest)

inductive Opening (system : DenseMatrix α) : Method → Classification → List (Step α) → Prop
  | gauss {c : Classification} (hc : classify system = .ok c) :
      Opening system .gauss c [.classified c]
  | gaussJordan {c : Classification} (hc : classify system = .ok c) :
      Opening system .gaussJordan c [.classified c]
  | inverseMatrix {c : Classification} {det : α} (hc : classify system = .ok c)
      (hdet : system.coefficients >>= DenseMatrix.determinant = .ok det)
      (hfar : isNearZero det = false) :
      Opening system .inverseMatrix c [.determinant det, .classified c]

def width (n : ℕ) : Method → ℕ
  | .gauss | .gaussJordan => n + 1
  | .inverseMatrix => 2 * n

/-- The opening of a uniquely solvable system and a copy of the matrix that is to be reduced. -/
inductive Start (system : DenseMatrix α) (method : Method) : List (Step α) → Prop
  | copy {c : Classification} {opening : List (Step α)} {start : DenseMatrix α}
      (hopening : Opening system method c opening) (hunique : c.status = .unique)
      (hrows : start.rows = system.rows) (hcols : start.cols = width system.rows method) :
      Start system method (opening ++ [.snapshot .initial start])

/-- What is read off the reduced matrix, and the vector that it leads to. -/
inductive Reading (n : ℕ) : Method → List α → List (Step α) → Prop
  | gauss {x : List α} (hx : x.length = n) : Reading n .gauss x (DenseMatrix.substitutions x)
  | gaussJordan {x : List α} (hx : x.length = n) : Reading n .gaussJordan x []
  | inverseMatrix {x : List α} {inverse : DenseMatrix α} (hx : x.length = n)
      (hrows : inverse.rows = n) (hcols : inverse.cols = n) :
      Reading n .inverseMatrix x [.inverse inverse]

/-- A complete elimination and what is read off its result. -/
inductive Derived (system : DenseMatrix α) (method : Method) (x : List α) : List (Step α) → Prop
  | complete {start columns reading : List (Step α)} (hstart : Start system method start)
      (hcolumns :
        Columns system.rows (width system.rows method) method.sweep 0 system.rows columns)
      (hreading : Reading system.rows method x reading) :
      Derived system method x (start ++ (columns ++ reading))

/-- The residuals of the first `count` equations, whose magnitudes are finite. -/
inductive Residuals (system : DenseMatrix α) (x : List α) (count : ℕ) : List (Step α) → Prop
  | finite (hfinite : ∀ i < count, Scalar.isFinite (Scalar.abs (system.residualAt x i)) = true) :
      Residuals system x count
        (system.residualSteps 0 ((List.range count).map (system.residualAt x)))

/-- The records of a method, each with the status and the error text of its report. -/
inductive Word (system : DenseMatrix α) (method : Method) :
    Status → Option String → List (Step α) → Prop
  | refused {e : Error} (hinvalid : system.isAugmented = false ∨ system.isFinite = false)
      (he : system.validate = .error e) :
      Word system method .error (some e.message) [.failed e.message]
  | singular {c : Classification} {det : α} (hmethod : method = .inverseMatrix)
      (hvalid : system.isAugmented = true ∧ system.isFinite = true)
      (hc : classify system = .ok c)
      (hdet : system.coefficients >>= DenseMatrix.determinant = .ok det)
      (hnear : isNearZero det = true) :
      Word system method .error (some Error.singularMatrix.message)
        [.determinant det, .classified c, .failed Error.singularMatrix.message]
  | stopped {c : Classification} {opening : List (Step α)}
      (hvalid : system.isAugmented = true ∧ system.isFinite = true)
      (hopening : Opening system method c opening) (hne : c.status ≠ .unique) :
      Word system method c.status none opening
  | stuck {start columns : List (Step α)} {k : ℕ}
      (hvalid : system.isAugmented = true ∧ system.isFinite = true)
      (hstart : Start system method start) (hk : k < system.rows)
      (hcolumns : Stuck system.rows (width system.rows method) method.sweep k 0 columns) :
      Word system method .error (some (Error.zeroPivot k).message)
        (start ++ (columns ++ [.failed (Error.zeroPivot k).message]))
  | infiniteSolution {derived : List (Step α)} {x : List α}
      (hvalid : system.isAugmented = true ∧ system.isFinite = true)
      (hderived : Derived system method x derived) (hx : x.all Scalar.isFinite = false) :
      Word system method .error (some (Error.nonFinite .solution).message)
        (derived ++ [.failed (Error.nonFinite .solution).message])
  | infiniteResidual {derived residuals : List (Step α)} {x : List α} {count : ℕ}
      (hvalid : system.isAugmented = true ∧ system.isFinite = true)
      (hderived : Derived system method x derived) (hx : x.all Scalar.isFinite = true)
      (hcount : count < system.rows) (hresiduals : Residuals system x count residuals)
      (hinfinite : Scalar.isFinite (Scalar.abs (system.residualAt x count)) = false) :
      Word system method .error (some (Error.nonFinite .residual).message)
        (derived ++ (.solutionExtracted x ::
          (residuals ++ [.failed (Error.nonFinite .residual).message])))
  | solved {derived residuals : List (Step α)} {x : List α}
      (hvalid : system.isAugmented = true ∧ system.isFinite = true)
      (hderived : Derived system method x derived) (hx : x.all Scalar.isFinite = true)
      (hresiduals : Residuals system x system.rows residuals) :
      Word system method .unique none (derived ++ .solutionExtracted x :: residuals)

/-! ## Columns -/

section Elimination

variable {work result : DenseMatrix α} {sweep : Sweep} {k left : ℕ}

theorem targets_eliminations (m : DenseMatrix α) (k : ℕ) (sweep : Sweep) :
    ∃ targets, Targets m.rows sweep k targets ∧
      m.eliminations k sweep = targets.map fun t => .rowEliminated t.1 k k t.2 := by
  refine ⟨((List.range m.rows).filter (m.isTarget k sweep)).map fun i => (i, m.entry i k), ?_, ?_⟩
  · have hmem : ∀ t ∈ ((List.range m.rows).filter (m.isTarget k sweep)).map
        fun i => (i, m.entry i k), t.1 < m.rows ∧ sweep.reaches k t.1 = true ∧
          Scalar.isZero t.2 = false := by
      intro t ht
      obtain ⟨i, hi, rfl⟩ := List.mem_map.mp ht
      obtain ⟨hlt, htarget⟩ := List.mem_filter.mp hi
      have hboth : sweep.reaches k i = true ∧ Scalar.isZero (m.entry i k) = false := by
        simpa [DenseMatrix.isTarget] using htarget
      exact ⟨List.mem_range.mp hlt, hboth⟩
    constructor
    · rw [List.map_map]
      simpa [Function.comp_def] using List.pairwise_lt_range.filter (m.isTarget k sweep)
    · exact fun t ht => (hmem t ht).1
    · exact fun t ht => (hmem t ht).2.1
    · exact fun t ht => (hmem t ht).2.2
  · rw [DenseMatrix.eliminations, List.map_map]
    rfl

theorem column_columnSteps (hk : k < work.rows) (hpivot : isNearZero (work.pivot k) = false) :
    Column work.rows work.cols sweep k (work.columnSteps k sweep) := by
  obtain ⟨targets, htargets, heliminations⟩ := targets_eliminations (work.normalized k) k sweep
  rw [DenseMatrix.columnSteps, heliminations]
  exact .complete (work.le_pivotRow k k) (work.pivotRow_lt k hk) hpivot htargets rfl rfl

theorem columns_reduceFrom (hrows : k + left ≤ work.rows)
    (h : (work.reduceFrom sweep k left).outcome = .ok result) :
    Columns work.rows work.cols sweep k left (work.reduceFrom sweep k left).steps := by
  induction left generalizing k work with
  | zero => exact .done k
  | succ left ih =>
    obtain ⟨hpivot, hrest⟩ := DenseMatrix.reduceFrom_succ_eq_ok h
    rw [DenseMatrix.reduceFrom_succ, if_neg (by simp [hpivot])]
    apply Columns.next
    · exact column_columnSteps (by omega) hpivot
    · exact ih (by rw [DenseMatrix.rows_reduced]; omega) hrest

theorem stuck_reduceFrom {e : Error} (hrows : k + left ≤ work.rows)
    (h : (work.reduceFrom sweep k left).outcome = .error e) :
    ∃ stuck, e = .zeroPivot stuck ∧ stuck < k + left ∧
      Stuck work.rows work.cols sweep stuck k (work.reduceFrom sweep k left).steps := by
  induction left generalizing k work with
  | zero => cases h
  | succ left ih =>
    rw [DenseMatrix.reduceFrom_succ] at h ⊢
    cases hpivot : isNearZero (work.pivot k) with
    | true =>
      rw [hpivot, if_pos rfl] at h
      rw [if_pos rfl]
      cases h
      exact ⟨k, rfl, by omega, .pivot (work.le_pivotRow k k) (work.pivotRow_lt k (by omega)) hpivot⟩
    | false =>
      rw [hpivot, if_neg Bool.false_ne_true] at h
      rw [if_neg Bool.false_ne_true]
      obtain ⟨stuck, he, hlt, hrest⟩ := ih (by rw [DenseMatrix.rows_reduced]; omega) h
      exact ⟨stuck, he, by omega, .next (column_columnSteps (by omega) hpivot) hrest⟩

end Elimination

/-! ## Whole records -/

section Records

variable {system work : DenseMatrix α} {method : Method}

theorem invalid_of_validate {e : Error} (h : system.validate = .error e) :
    system.isAugmented = false ∨ system.isFinite = false := by
  by_contra hvalid
  simp only [not_or, Bool.not_eq_false] at hvalid
  rw [DenseMatrix.validate_eq_ok_iff.mpr hvalid] at h
  cases h

theorem determinant_of_isAugmented (h : system.isAugmented = true) :
    system.coefficients >>= DenseMatrix.determinant = .ok system.coefficientDeterminant := by
  rw [DenseMatrix.coefficients_of_isAugmented h]
  exact system.determinant_coefficientPart

theorem opening_openingSteps (haugmented : system.isAugmented = true)
    (hdet : method = .inverseMatrix → isNearZero system.coefficientDeterminant = false) :
    Opening system method system.classification (system.openingSteps method) := by
  have hc := DenseMatrix.classify_of_isAugmented haugmented
  cases method with
  | gauss => exact .gauss hc
  | gaussJordan => exact .gaussJordan hc
  | inverseMatrix => exact .inverseMatrix hc (determinant_of_isAugmented haugmented) (hdet rfl)

theorem cols_startMatrix (haugmented : system.isAugmented = true) :
    (system.startMatrix method).cols = width system.rows method := by
  obtain ⟨-, hcols⟩ := DenseMatrix.isAugmented_iff.mp haugmented
  cases method with
  | gauss => exact hcols
  | gaussJordan => exact hcols
  | inverseMatrix => rfl

theorem start_of_starts (h : system.Starts method) :
    Start system method
      (system.openingSteps method ++ [.snapshot .initial (system.startMatrix method)]) := by
  have haugmented := (DenseMatrix.validate_eq_ok_iff.mp h.valid).1
  exact .copy (opening_openingSteps haugmented h.determinant) h.unique
    (system.rows_startMatrix method) (cols_startMatrix haugmented)

theorem reading_readingSteps (hwork : work.rows = system.rows) :
    Reading system.rows method (system.readOff work method) (system.readingSteps work method) := by
  cases method with
  | gauss =>
    have hlength : (work.backSubstitute 0 work.rows).length = system.rows := by simp [hwork]
    exact .gauss hlength
  | gaussJordan => exact .gaussJordan (by simp [DenseMatrix.readOff, hwork])
  | inverseMatrix =>
    exact .inverseMatrix (by simp [DenseMatrix.readOff, DenseMatrix.inverseProduct]) rfl rfl

theorem derived_of_candidate {x : List α}
    (h : (system.strategy method).outcome = .ok (.candidate x)) :
    Derived system method x (system.strategy method).steps := by
  obtain ⟨hstarts, work, hwork, rfl⟩ := DenseMatrix.reduced_of_candidate h
  have haugmented := (DenseMatrix.validate_eq_ok_iff.mp hstarts.valid).1
  have hrows := system.rows_startMatrix method
  have hcolumns : Columns (system.startMatrix method).rows (system.startMatrix method).cols
      method.sweep 0 (system.startMatrix method).rows (system.reduction method).steps :=
    columns_reduceFrom (by rw [Nat.zero_add]) hwork
  rw [hrows, cols_startMatrix haugmented] at hcolumns
  have hshape := (DenseMatrix.rows_of_reduce hwork).1.trans hrows
  rw [DenseMatrix.strategy_of_reduced hstarts hwork]
  have hderived :=
    Derived.complete (start_of_starts hstarts) hcolumns (reading_readingSteps hshape)
  rwa [List.append_assoc] at hderived

theorem stuck_of_error {e : Error} (hstarts : system.Starts method)
    (h : (system.reduction method).outcome = .error e) :
    ∃ k, e = .zeroPivot k ∧ k < system.rows ∧
      Stuck system.rows (width system.rows method) method.sweep k 0
        (system.reduction method).steps := by
  have haugmented := (DenseMatrix.validate_eq_ok_iff.mp hstarts.valid).1
  have hrows := system.rows_startMatrix method
  have hreduce : ((system.startMatrix method).reduceFrom method.sweep 0
      (system.startMatrix method).rows).outcome = .error e := h
  obtain ⟨k, rfl, hk, hstuck⟩ := stuck_reduceFrom (by rw [Nat.zero_add]) hreduce
  rw [Nat.zero_add, hrows] at hk
  refine ⟨k, rfl, hk, ?_⟩
  rw [← cols_startMatrix haugmented, ← hrows]
  exact hstuck

/-- The check passes all residuals or stops at the first that is not finite. -/
theorem checkResiduals_cases (system : DenseMatrix α) (rs : List α) (row : ℕ) (worst : α) :
    (∀ r ∈ rs, Scalar.isFinite (Scalar.abs r) = true) ∨
      ∃ (count : ℕ) (h : count < rs.length),
        (∀ r ∈ rs.take count, Scalar.isFinite (Scalar.abs r) = true) ∧
        Scalar.isFinite (Scalar.abs rs[count]) = false ∧
        system.checkResiduals row worst rs =
          ⟨system.residualSteps row (rs.take count), .error (.nonFinite .residual)⟩ := by
  induction rs generalizing row worst with
  | nil => exact .inl fun r hr => absurd hr List.not_mem_nil
  | cons r rs ih =>
    simp only [DenseMatrix.checkResiduals]
    cases hr : Scalar.isFinite (Scalar.abs r) with
    | false => exact .inr ⟨0, by simp, by simp, hr, rfl⟩
    | true =>
      rcases ih (row + 1) (if Scalar.lt worst (Scalar.abs r) then Scalar.abs r else worst) with
        hall | ⟨count, hlt, htake, hbad, hcheck⟩
      · exact .inl (List.forall_mem_cons.mpr ⟨hr, hall⟩)
      · refine .inr ⟨count + 1, Nat.succ_lt_succ hlt, ?_, hbad, ?_⟩
        · rw [List.take_succ_cons]
          exact List.forall_mem_cons.mpr ⟨hr, htake⟩
        · rw [if_pos rfl, hcheck]
          rfl

/-- The check of a finite vector passes all equations or stops behind the first `count` of them. -/
theorem check_cases {x : List α} (haugmented : system.isAugmented = true)
    (hlength : x.length = system.rows) (hx : x.all Scalar.isFinite = true) :
    (∀ i < system.rows, Scalar.isFinite (Scalar.abs (system.residualAt x i)) = true) ∨
      ∃ count < system.rows,
        (∀ i < count, Scalar.isFinite (Scalar.abs (system.residualAt x i)) = true) ∧
        Scalar.isFinite (Scalar.abs (system.residualAt x count)) = false ∧
        system.check x = ⟨.solutionExtracted x ::
            system.residualSteps 0 ((List.range count).map (system.residualAt x)),
          .error (.nonFinite .residual)⟩ := by
  set rs := (List.range system.rows).map (system.residualAt x) with hrs
  rcases checkResiduals_cases system rs 0 0 with hall | ⟨count, hlt, htake, hbad, hresiduals⟩
  · exact .inl fun i hi => hall _ (List.mem_map_of_mem (List.mem_range.mpr hi))
  · have hcount : count < system.rows := by simpa [hrs] using hlt
    have htaken : rs.take count = (List.range count).map (system.residualAt x) := by
      rw [hrs, ← List.map_take, List.take_range, min_eq_left hcount.le]
    rw [htaken] at htake hresiduals
    refine .inr ⟨count, hcount, fun i hi => ?_, ?_, ?_⟩
    · exact htake _ (List.mem_map_of_mem (List.mem_range.mpr hi))
    · simpa [hrs] using hbad
    · rw [DenseMatrix.check, if_pos hx, DenseMatrix.residuals_eq haugmented hlength,
        Derivation.ofExcept_bind_of_ok rfl, hresiduals]
      rfl

/-- Where an attempt fails, its report has the status and the text of that error. -/
theorem word_of_failed {e : Error} {steps : List (Step α)} (traced : Bool)
    (hattempt : system.attempt method = ⟨steps, .error e⟩)
    (hword : Word system method .error (some e.message) steps) :
    Word system method (solve system method traced).status (solve system method traced).error
      (system.attempt method).steps := by
  rw [solve_of_failed traced (congrArg Derivation.outcome hattempt), hattempt]
  exact hword

theorem word_of_failed_strategy {e : Error} {steps : List (Step α)} (traced : Bool)
    (hstrategy : system.strategy method = ⟨steps, .error e⟩)
    (hword : Word system method .error (some e.message) (steps ++ [.failed e.message])) :
    Word system method (solve system method traced).status (solve system method traced).error
      (system.attempt method).steps := by
  have hattempt := DenseMatrix.attempt_of_failed (congrArg Derivation.outcome hstrategy)
  rw [hstrategy] at hattempt
  exact word_of_failed traced hattempt hword

theorem word_of_candidate {x : List α} (traced : Bool)
    (h : (system.strategy method).outcome = .ok (.candidate x)) :
    Word system method (solve system method traced).status (solve system method traced).error
      (system.attempt method).steps := by
  have hvalid := DenseMatrix.validate_eq_ok_iff.mp (DenseMatrix.validate_of_candidate h)
  have hlength := DenseMatrix.length_of_candidate h
  have hderived := derived_of_candidate h
  cases hx : x.all Scalar.isFinite with
  | false =>
    have hcheck : system.check x = ⟨[], .error (.nonFinite .solution)⟩ := by
      rw [DenseMatrix.check, hx]
      rfl
    have hattempt := DenseMatrix.attempt_of_refused h (congrArg Derivation.outcome hcheck)
    rw [hcheck, List.nil_append] at hattempt
    exact word_of_failed traced hattempt (.infiniteSolution hvalid hderived hx)
  | true =>
    rcases check_cases hvalid.1 hlength hx with
      hfinite | ⟨count, hcount, hfinite, hinfinite, hcheck⟩
    · have hcheck := DenseMatrix.check_of_isFinite hvalid.1 hlength hx hfinite
      have hattempt := DenseMatrix.attempt_of_checked h (congrArg Derivation.outcome hcheck)
      rw [hcheck] at hattempt
      rw [solve_of_solved traced (congrArg Derivation.outcome hattempt), hattempt]
      exact .solved hvalid hderived hx (.finite hfinite)
    · have hattempt := DenseMatrix.attempt_of_refused h (congrArg Derivation.outcome hcheck)
      rw [hcheck] at hattempt
      apply word_of_failed traced hattempt
      exact .infiniteResidual hvalid hderived hx hcount (.finite hfinite) hinfinite

/-- Every record is a word of the language, with the status and the error text of its report. -/
theorem word_attempt (system : DenseMatrix α) (method : Method) (traced : Bool) :
    Word system method (solve system method traced).status (solve system method traced).error
      (system.attempt method).steps := by
  by_cases hstarts : system.Starts method
  · cases hreduction : (system.reduction method).outcome with
    | ok work =>
      exact word_of_candidate traced
        (congrArg Derivation.outcome (DenseMatrix.strategy_of_reduced hstarts hreduction))
    | error e =>
      obtain ⟨k, rfl, hk, hstuck⟩ := stuck_of_error hstarts hreduction
      apply word_of_failed_strategy traced (DenseMatrix.strategy_of_stuck hstarts hreduction)
      have hword := Word.stuck (DenseMatrix.validate_eq_ok_iff.mp hstarts.valid)
        (start_of_starts hstarts) hk hstuck
      simpa using hword
  · rcases DenseMatrix.strategy_of_not_starts hstarts with
      ⟨e, hvalid, hstrategy⟩ | ⟨hvalid, rfl, hnear, hstrategy⟩ | ⟨hvalid, hne, hdet, hstrategy⟩
    · apply word_of_failed_strategy traced hstrategy
      exact .refused (invalid_of_validate hvalid) hvalid
    · have haccepted := DenseMatrix.validate_eq_ok_iff.mp hvalid
      apply word_of_failed_strategy traced hstrategy
      exact .singular rfl haccepted (DenseMatrix.classify_of_isAugmented haccepted.1)
        (determinant_of_isAugmented haccepted.1) hnear
    · have hattempt := DenseMatrix.attempt_eq_of_stopped (congrArg Derivation.outcome hstrategy)
      have haccepted := DenseMatrix.validate_eq_ok_iff.mp hvalid
      rw [hstrategy] at hattempt
      rw [solve_of_stopped traced (congrArg Derivation.outcome hattempt), hattempt]
      exact .stopped haccepted (opening_openingSteps haccepted.1 hdet) hne

/-- A report with a trace holds a word of the language. -/
theorem trace_is_word (system : DenseMatrix Float) (method : Method) :
    ∃ steps, (solve system method true).trace = some ⟨true, steps⟩ ∧
      Word system method (solve system method true).status (solve system method true).error
        steps :=
  ⟨_, trace_solve system method true, word_attempt system method true⟩

end Records

end DenseSystem.Language
