import Mathlib.Data.List.GetD
import Mathlib.Tactic
import DenseSystem.Proofs.Guarded.Elimination
import DenseSystem.Proofs.Guarded.Rank
import DenseSystem.Proofs.Solver.Candidate

/-! # Guarded solver

Each method with all its checks, from the shape of the system to the residuals of a candidate. Unless
the number of columns that the shape asks for exceeds all machine words, no check fails, and every
system is reported on as without checks.
-/
namespace DenseSystem

theorem Derivation.ofExcept_bind {α β γ : Type} (x : Except Error β) (f : β → Except Error γ) :
    (ofExcept x >>= fun b => ofExcept (f b) : Derivation α γ) = ofExcept (x >>= f) := by
  cases x <;> rfl

namespace Guarded

open DenseMatrix

variable {α : Type} [Scalar α] {system m work : DenseMatrix α} {x : List α}

/-! ## The shape of a system -/

/-- The width of an augmented matrix is only computed for one that has rows. -/
def checkAugmented (m : DenseMatrix α) : Guarded (Except Error Unit) :=
  if 1 ≤ m.rows then do
    let width ← word (m.rows + 1)
    return if m.cols = width then .ok () else .error (.invalidShape m.rows m.cols .notAugmented)
  else return .error (.invalidShape m.rows m.cols .notAugmented)

omit [Scalar α] in
theorem checkAugmented_eq (h : m.rows + 1 < wordCount) :
    checkAugmented m = .ok m.checkAugmented := by
  rw [checkAugmented, DenseMatrix.checkAugmented]
  by_cases hpos : 1 ≤ m.rows
  · rw [if_pos hpos, word_eq h]
    refine congrArg Except.ok (if_congr ?_ rfl rfl)
    rw [isAugmented_iff]
    exact ⟨fun hcols => ⟨hpos, hcols⟩, fun haug => haug.2⟩
  · rw [if_neg hpos, if_neg (by rw [isAugmented_iff]; exact fun haug => hpos haug.1)]
    rfl

def coefficients (m : DenseMatrix α) : Run α (DenseMatrix α) := do
  Run.fallible (checkAugmented m)
  Run.fallible (block m 0 0 m.rows m.rows)

theorem coefficients_eq (h : m.rows + 1 < wordCount) :
    coefficients m = Run.of (.ofExcept m.coefficients) := by
  rw [DenseMatrix.coefficients, ← Derivation.ofExcept_bind]
  exact Run.bind_eq (Run.fallible_eq (checkAugmented_eq h)) fun _ _ =>
    Run.fallible_eq (block_eq m _ _ _ _)

def rhs (m : DenseMatrix α) : Run α (List α) := do
  Run.fallible (checkAugmented m)
  Run.fallible (column m m.rows)

theorem rhs_eq (h : m.rows + 1 < wordCount) : rhs m = Run.of (.ofExcept m.rhs) := by
  rw [DenseMatrix.rhs, ← Derivation.ofExcept_bind]
  exact Run.bind_eq (Run.fallible_eq (checkAugmented_eq h)) fun _ _ =>
    Run.fallible_eq (column_eq m _)

def validate (system : DenseMatrix α) : Run α Unit := do
  Run.fallible (checkAugmented system)
  Run.of (.ofExcept system.checkFinite)

theorem validate_eq (h : system.rows + 1 < wordCount) :
    validate system = Run.of (.ofExcept system.validate) := by
  rw [DenseMatrix.validate, ← Derivation.ofExcept_bind]
  exact Run.bind_eq (Run.fallible_eq (checkAugmented_eq h)) fun _ _ => rfl

def classified (system : DenseMatrix α) : Run α Classification := do
  let a ← coefficients system
  let coefficients ← Run.guarded (rank a)
  let augmented ← Run.guarded (rank system)
  let c := Classification.ofRanks coefficients augmented system.rows
  Run.of (.record (.classified c))
  return c

theorem classified_eq (h : system.rows + 1 < wordCount) :
    classified system = Run.of system.classified := by
  have hrun : classified system = Run.of (.ofExcept system.coefficients >>= fun a =>
      .record (.classified (.ofRanks a.rank system.rank system.rows)) >>= fun _ =>
        pure (.ofRanks a.rank system.rank system.rows)) := by
    refine Run.bind_eq (coefficients_eq h) fun a _ => ?_
    rw [Run.guarded_bind (rank_eq a), Run.guarded_bind (rank_eq system)]
    rfl
  rw [hrun, DenseMatrix.classified, classify]
  cases system.coefficients <;> rfl

theorem item_row (i : ℕ) {j : ℕ} (hj : j < m.cols) :
    item ((List.range m.cols).map (m.entry i)) j = .ok (m.entry i j) := by
  rw [item_eq (by simpa using hj)]
  simp [List.getD_eq_getElem?_getD, hj]

/-! ## Products and residuals -/

def multiply (m : DenseMatrix α) (x : List α) : Run α (List α) :=
  if m.cols = x.length then
    (List.range m.rows).mapM' fun i => do
      let cells ← Run.guarded (outOfRange (m.row i))
      Run.of (.ofExcept (dot cells x))
  else Run.of (.fail (.dimensionMismatch m.cols x.length))

theorem multiply_eq (m : DenseMatrix α) (x : List α) :
    multiply m x = Run.of (.ofExcept (m.multiply x)) := by
  by_cases h : x.length = m.cols
  · rw [multiply, if_pos h.symm, DenseMatrix.multiply_eq h]
    apply Run.mapM'_eq
    intro i hi
    rw [Run.guarded_bind (row_eq (List.mem_range.mp hi)), dot, if_pos (by simp [h])]
    rfl
  · rw [multiply, if_neg (Ne.symm h), DenseMatrix.multiply, if_neg (Ne.symm h)]
    rfl

def residuals (system : DenseMatrix α) (x : List α) : Run α (List α) := do
  Run.fallible (checkAugmented system)
  if x.length = system.rows then
    (List.range system.rows).mapM' fun i => do
      let cells ← Run.guarded (outOfRange (system.row i))
      let coefficients ← Run.guarded (slice cells 0 system.rows)
      let lhs ← Run.of (.ofExcept (dot coefficients x))
      let rhs ← Run.guarded (item cells system.rows)
      return lhs - rhs
  else Run.of (.fail (.dimensionMismatch system.rows x.length))

theorem residuals_eq (haug : system.isAugmented = true) (h : system.rows + 1 < wordCount) :
    residuals system x = Run.of (.ofExcept (system.residuals x)) := by
  obtain ⟨-, hcols⟩ := isAugmented_iff.mp haug
  have hcheck : checkAugmented system = .ok (.ok ()) := by
    rw [checkAugmented_eq h, checkAugmented_of_isAugmented haug]
  have hfallible : (Run.fallible (checkAugmented system) : Run α Unit) =
      Run.of (pure ()) := Run.fallible_eq hcheck
  by_cases hlength : x.length = system.rows
  · rw [residuals, hfallible, if_pos hlength, DenseMatrix.residuals_eq haug hlength]
    refine Run.bind_eq rfl fun _ _ => Run.mapM'_eq fun i hi => ?_
    have hcoefficients : ((List.range system.cols).map (system.entry i)).take system.rows =
        (List.range system.rows).map (system.entry i) := by
      rw [← List.map_take, List.take_range, hcols, min_eq_left (Nat.le_succ _)]
    have hdot : dot ((List.range system.rows).map (system.entry i)) x =
        .ok (scalarProduct ((List.range system.rows).map (system.entry i)) x) :=
      if_pos (by simp [hlength])
    rw [Run.guarded_bind (row_eq (List.mem_range.mp hi)),
      Run.guarded_bind (slice_zero (by simp [hcols])), hcoefficients, hdot]
    refine Run.bind_eq (d := pure _) (g := fun lhs => pure (lhs - system.entry i system.rows)) rfl
      fun lhs _ => ?_
    rw [Run.guarded_bind (item_row i (by omega))]
    rfl
  · rw [residuals, hfallible, if_neg hlength, DenseMatrix.residuals,
      checkAugmented_of_isAugmented haug, if_neg hlength]
    rfl

theorem length_of_residuals {rs : List α} (haug : system.isAugmented = true)
    (h : system.residuals x = .ok rs) : rs.length = system.rows := by
  by_cases hlength : x.length = system.rows
  · rw [DenseMatrix.residuals_eq haug hlength] at h
    cases h
    simp
  · rw [DenseMatrix.residuals, checkAugmented_of_isAugmented haug, if_neg hlength] at h
    cases h

def checkResiduals (system : DenseMatrix α) (row : ℕ) (worst : α) : List α → Run α α
  | [] => return worst
  | r :: rest => do
    let error := Scalar.abs r
    if Scalar.isFinite error then
      let rhs ← Run.guarded (read system row system.rows)
      Run.of (.record (.residual row (rhs + r) rhs error))
      checkResiduals system (row + 1) (if Scalar.lt worst error then error else worst) rest
    else Run.of (.fail (.nonFinite .residual))

theorem checkResiduals_eq (hcols : system.rows < system.cols) {rs : List α} {row : ℕ} (worst : α)
    (hrow : row + rs.length ≤ system.rows) :
    checkResiduals system row worst rs = Run.of (system.checkResiduals row worst rs) := by
  induction rs generalizing row worst with
  | nil => rfl
  | cons r rs ih =>
    rw [List.length_cons] at hrow
    rw [checkResiduals, DenseMatrix.checkResiduals]
    dsimp only
    by_cases hr : Scalar.isFinite (Scalar.abs r) = true
    · rw [if_pos hr, if_pos hr, Run.guarded_bind (read_eq (by omega) hcols)]
      exact Run.bind_eq rfl fun _ _ => ih _ (by omega)
    · rw [if_neg hr, if_neg hr]

def check (system : DenseMatrix α) (x : List α) : Run α α := do
  if x.all Scalar.isFinite then
    Run.of (.record (.solutionExtracted x))
    let residuals ← residuals system x
    checkResiduals system 0 0 residuals
  else Run.of (.fail (.nonFinite .solution))

theorem check_eq (haug : system.isAugmented = true) (h : system.rows + 1 < wordCount) :
    check system x = Run.of (system.check x) := by
  obtain ⟨-, hcols⟩ := isAugmented_iff.mp haug
  rw [check, DenseMatrix.check]
  split_ifs
  · refine Run.bind_eq rfl fun _ _ => Run.bind_eq (residuals_eq haug h) fun rs hrs => ?_
    have hlength := length_of_residuals haug hrs
    exact checkResiduals_eq (by omega) 0 (by omega)
  · rfl

/-! ## Back substitution -/

def backSubstitute (work : DenseMatrix α) : Guarded (List α) :=
  (List.range' 0 work.rows).foldlM (fun x done => do
    let i := work.rows - 1 - done
    let cells ← outOfRange (work.row i)
    let products ← (List.range' (i + 1) done).mapM fun j => do
      let coefficient ← item cells j
      let value ← item x j
      return coefficient * value
    let rhs ← item cells work.rows
    require (i < x.length) (.item i x.length)
    return x.set i (rhs - sum products)) (List.replicate work.rows 0)

def knownFrom (work : DenseMatrix α) (done : ℕ) : List α :=
  List.replicate (work.rows - done) 0 ++ work.backSubstitute (work.rows - done) done

/-- Values multiplied one by one, from number `first` on. -/
theorem map_mul_getD (f : ℕ → α) (first : ℕ) (values : List α) :
    (List.range' first values.length).map (fun j => f j * values.getD (j - first) 0) =
      List.zipWith (· * ·) ((List.range' first values.length).map f) values := by
  refine List.ext_getElem (by simp) fun j hj hj' => ?_
  have hlt : j < values.length := by simpa using hj
  simp [List.getD_eq_getElem?_getD, hlt]

theorem products_eq {i done : ℕ} (hi : i + 1 + done ≤ work.cols) {values : List α}
    (hvalues : values.length = done) :
    (List.range' (i + 1) done).mapM (fun j => do
      let coefficient ← item ((List.range work.cols).map (work.entry i)) j
      let value ← item (List.replicate (i + 1) 0 ++ values) j
      return coefficient * value) =
    (.ok (List.zipWith (· * ·) ((List.range' (i + 1) done).map (work.entry i)) values) :
      Guarded (List α)) := by
  have hitems : ∀ j ∈ List.range' (i + 1) done, (do
      let coefficient ← item ((List.range work.cols).map (work.entry i)) j
      let value ← item (List.replicate (i + 1) 0 ++ values) j
      return coefficient * value : Guarded α) =
        .ok (work.entry i j * values.getD (j - (i + 1)) 0) := by
    intro j hj
    rw [List.mem_range'_1] at hj
    rw [item_row i (by omega), ok_bind, item_eq (by simp; omega), ok_bind,
      List.getD_append_right _ _ _ _ (by simpa using hj.1), List.length_replicate]
    rfl
  rw [mapM_eq_ok hitems, ← hvalues, map_mul_getD]

theorem backSubstitute_eq (hcols : work.rows < work.cols) :
    backSubstitute work = .ok (work.backSubstitute 0 work.rows) := by
  apply loop_eq (knownFrom work)
  · simp [knownFrom, DenseMatrix.backSubstitute]
  · simp [knownFrom]
  intro done _ hdone
  -- The loop counts the unknowns from the last one on, and row `i` is the next above them.
  obtain ⟨i, hi⟩ : ∃ i, work.rows = i + 1 + done := ⟨work.rows - 1 - done, by omega⟩
  have hcurrent : work.rows - 1 - done = i := by omega
  have hunknown : work.rows - done = i + 1 := by omega
  have hnext : work.rows - (done + 1) = i := by omega
  have hlater : (work.backSubstitute (i + 1) done).length = done :=
    work.length_backSubstitute (i + 1) done
  simp only [hcurrent, knownFrom, hunknown, hnext]
  rw [row_eq (by omega), ok_bind, products_eq (by omega) hlater, ok_bind, item_row i hcols, ok_bind,
    require_of (by simp; omega), ok_bind, List.replicate_succ', DenseMatrix.backSubstitute]
  simp
  rfl

/-! ## Methods -/

def eliminate (system : DenseMatrix α) (sweep : Sweep)
    (extract : DenseMatrix α → Run α (List α)) : Run α (Finding α) := do
  validate system
  let c ← classified system
  if c.status = .unique then
    Run.of (.record (.snapshot .initial system))
    let work ← reduce system sweep
    return .candidate (← extract work)
  else return .stopped c.status

theorem eliminate_eq (h : system.rows + 1 < wordCount) (sweep : Sweep)
    {extract : DenseMatrix α → Run α (List α)} {extracted : DenseMatrix α → Derivation α (List α)}
    (hextract : ∀ work : DenseMatrix α, work.rows < work.cols →
      extract work = Run.of (extracted work)) :
    eliminate system sweep extract = Run.of (system.eliminate sweep extracted) := by
  refine Run.bind_eq (validate_eq h) fun _ hvalid => Run.bind_eq (classified_eq h) fun c _ => ?_
  obtain ⟨-, hcols⟩ := isAugmented_iff.mp (validate_eq_ok_iff.mp hvalid).1
  split_ifs
  · refine Run.bind_eq rfl fun _ _ =>
      Run.bind_eq (reduce_eq sweep (by omega)) fun work hwork => ?_
    obtain ⟨hrows, hwidth⟩ := rows_of_reduce hwork
    exact Run.bind_eq (hextract work (by omega)) fun _ _ => rfl
  · rfl

def gauss (system : DenseMatrix α) : Run α (Finding α) :=
  eliminate system .below fun work => do
    let x ← Run.guarded (backSubstitute work)
    Run.of (.recordAll (substitutions x))
    return x

def gaussJordan (system : DenseMatrix α) : Run α (Finding α) :=
  eliminate system .all fun work => Run.fallible (column work work.rows)

def inverseMatrix (system : DenseMatrix α) : Run α (Finding α) := do
  validate system
  let a ← coefficients system
  let b ← rhs system
  let det ← Run.fallible (determinant a)
  Run.of (.record (.determinant det))
  let c ← classified system
  if isNearZero det then Run.of (.fail .singularMatrix)
  else if c.status = .unique then
    let inverse ← invert a
    return .candidate (← multiply inverse b)
  else return .stopped c.status

theorem gauss_eq (h : system.rows + 1 < wordCount) :
    gauss system = Run.of system.gauss := by
  apply eliminate_eq h
  intro work hcols
  rw [Run.guarded_bind (backSubstitute_eq hcols)]
  rfl

theorem gaussJordan_eq (h : system.rows + 1 < wordCount) :
    gaussJordan system = Run.of system.gaussJordan :=
  eliminate_eq h _ fun work _ => Run.fallible_eq (column_eq work _)

theorem inverseMatrix_eq (h : system.rows + 1 < wordCount) :
    inverseMatrix system = Run.of system.inverseMatrix := by
  refine Run.bind_eq (validate_eq h) fun _ _ => Run.bind_eq (coefficients_eq h) fun a _ =>
    Run.bind_eq (rhs_eq h) fun b _ => Run.bind_eq (Run.fallible_eq (determinant_eq a)) fun det _ =>
      Run.bind_eq rfl fun _ _ => Run.bind_eq (classified_eq h) fun c _ => ?_
  split_ifs
  · rfl
  · exact Run.bind_eq (invert_eq a) fun inverse _ =>
      Run.bind_eq (multiply_eq inverse b) fun _ _ => rfl
  · rfl

def strategy (system : DenseMatrix α) : Method → Run α (Finding α)
  | .gauss => gauss system
  | .gaussJordan => gaussJordan system
  | .inverseMatrix => inverseMatrix system

theorem strategy_eq (h : system.rows + 1 < wordCount) (method : Method) :
    strategy system method = Run.of (system.strategy method) := by
  cases method with
  | gauss => exact gauss_eq h
  | gaussJordan => exact gaussJordan_eq h
  | inverseMatrix => exact inverseMatrix_eq h

/-! ## Attempts -/

def verdict (system : DenseMatrix α) : Finding α → Run α (Verdict α)
  | .stopped status => return .stopped status
  | .candidate x => return .solved x (← check system x)

def attempt (system : DenseMatrix α) (method : Method) : Run α (Verdict α) :=
  Except.map (fun d => match d.outcome with
    | .ok _ => d
    | .error e => ⟨d.steps ++ [.failed e.message], .error e⟩)
    (strategy system method >>= verdict system : Run α (Verdict α))

theorem attempt_eq (h : system.rows + 1 < wordCount) (method : Method) :
    attempt system method = Run.of (system.attempt method) := by
  have hrun : strategy system method >>= verdict system =
      Run.of (system.strategy method >>= system.verdict) := by
    refine Run.bind_eq (strategy_eq h method) fun finding hfinding => ?_
    cases finding with
    | stopped status => rfl
    | candidate x =>
      have haug := (validate_eq_ok_iff.mp (validate_of_candidate hfinding)).1
      exact Run.bind_eq (check_eq haug h) fun _ _ => rfl
  rw [attempt, hrun]
  rfl

def solve (system : DenseMatrix α) (method : Method) (traced : Bool) : Guarded (Report α) :=
  Except.map (Report.ofDerivation method traced) (attempt system method)

theorem solve_eq (h : system.rows + 1 < wordCount) (method : Method) (traced : Bool) :
    solve system method traced = .ok (DenseSystem.solve system method traced) := by
  rw [solve, attempt_eq h method]
  rfl

end Guarded

end DenseSystem
