import Mathlib.Tactic
import Std.Data.String.ToNat
import DenseSystem.Proofs.Double.Backward
import DenseSystem.Proofs.Elimination.Forward
import DenseSystem.Proofs.Elimination.Retraced
import DenseSystem.Proofs.Rank.LastColumn
import DenseSystem.Proofs.Solver.Course

/-! # The same pivots in every method

All methods start with the coefficients in the first columns of the matrix they reduce. So wherever
they start, they choose the pivots of the inversion of the coefficients, and fail in the column where
it fails, whatever the right-hand side.
-/
namespace DenseSystem

/-! ## The message of a failed elimination -/

theorem Error.message_zeroPivot (k : ℕ) :
    (zeroPivot k).message = "zero pivot in column " ++ (k + 1).repr := rfl

/-- The message of a zero pivot tells its column and is the message of no other error. -/
theorem Error.message_eq_zeroPivot_iff {e : Error} {k : ℕ} :
    e.message = (zeroPivot k).message ↔ e = zeroPivot k := by
  refine ⟨fun h => ?_, congrArg message⟩
  rw [message_zeroPivot] at h
  have hfirst : e.message.toList.head? = some 'z' := by
    rw [h]
    simp
  cases e with
  | zeroPivot j =>
    rw [message_zeroPivot, String.append_right_inj, Nat.repr_inj, Nat.succ_inj] at h
    rw [h]
  | _ =>
    delta message at hfirst
    simp [toString] at hfirst

theorem exists_ok_iff_of_error_iff {β γ : Type} {x : Except Error β} {y : Except Error γ}
    (h : ∀ e, x = .error e ↔ y = .error e) : (∃ b, x = .ok b) ↔ ∃ c, y = .ok c := by
  cases x with
  | ok b =>
    cases y with
    | ok c => simp
    | error e => exact absurd ((h e).mpr rfl) (by simp)
  | error e => simp [(h e).mp rfl]

variable {α : Type}

/-- An elimination has no forward steps outside of its reduction. -/
theorem InPhase.forwardSteps_eq_nil {phase : Phase} {steps : List (Step α)}
    (h : InPhase phase steps) (hne : phase ≠ .reduction) : forwardSteps steps = [] := by
  rw [forwardSteps, List.filter_eq_nil_iff]
  intro step hstep hforward
  have hphase := h step hstep
  cases step <;> first | exact hne hphase.symm | cases hforward

def Started (steps : List (Step α)) : Prop := ∃ start, .snapshot .initial start ∈ steps

namespace DenseMatrix

variable [Scalar α] {system a : DenseMatrix α} {method : Method} {e : Error} {k : ℕ}

/-! ## How far a reduction comes -/

/-- A reduction that fails makes no copy from the column on in which it fails. -/
theorem copies_of_error {work : DenseMatrix α} {sweep : Sweep} {j left stuck : ℕ}
    (h : (work.reduceFrom sweep j left).outcome = .error (.zeroPivot stuck)) :
    j ≤ stuck ∧ ∀ k copy,
      .snapshot (.afterColumn k) copy ∈ (work.reduceFrom sweep j left).steps → k < stuck := by
  induction left generalizing j work with
  | zero => cases h
  | succ left ih =>
    rw [reduceFrom_succ] at h ⊢
    split_ifs at h ⊢
    · cases h
      exact ⟨le_rfl, by simp⟩
    · obtain ⟨hle, hcopies⟩ := ih h
      refine ⟨by omega, fun k copy hcopy => ?_⟩
      rw [columnSteps_eq, List.mem_append, List.mem_append] at hcopy
      rcases hcopy with (hcopy | hcopy) | hcopy
      · exact absurd rfl (ne_snapshot_of_mem_operations hcopy _ _)
      · cases List.mem_singleton.mp hcopy
        omega
      · exact hcopies k copy hcopy

theorem exists_reduce_iff_copy {start : DenseMatrix α} {sweep : Sweep} (hpos : 1 ≤ start.rows) :
    (∃ work, (start.reduce sweep).outcome = .ok work) ↔
      ∃ copy, .snapshot (.afterColumn (start.rows - 1)) copy ∈ (start.reduce sweep).steps := by
  obtain ⟨last, hlast⟩ := Nat.exists_eq_add_of_le' hpos
  rw [reduce, hlast, Nat.add_sub_cancel]
  constructor
  · rintro ⟨work, hwork⟩
    obtain ⟨earlier, hearlier⟩ := last_copy_of_reduceFrom hwork
    rw [Nat.zero_add] at hearlier
    exact ⟨work, by simp [hearlier]⟩
  · rintro ⟨copy, hcopy⟩
    cases houtcome : (start.reduceFrom sweep 0 (last + 1)).outcome with
    | ok work => exact ⟨work, rfl⟩
    | error e =>
      obtain ⟨stuck, -, -, hlt, rfl, -⟩ := reduceFrom_failure (P := fun _ _ => True)
        (fun _ _ _ _ _ => trivial) (by omega) houtcome trivial
      have := (copies_of_error houtcome).2 last copy hcopy
      omega

/-- A reduction that fails does so for want of a pivot. -/
theorem error_of_reduce {start : DenseMatrix α} {sweep : Sweep}
    (h : (start.reduce sweep).outcome = .error e) : ∃ k < start.rows, e = .zeroPivot k := by
  obtain ⟨k, -, -, hlt, he, -⟩ := reduceFrom_failure (P := fun _ _ => True)
    (fun _ _ _ _ _ => trivial) (Nat.zero_add _).le h trivial
  exact ⟨k, by omega, he⟩

/-! ## Methods that start with the same coefficients -/

theorem agreeFrom_besideIdentity (hsquare : a.isSquare = true) :
    AgreeFrom 0 a.rows a a.besideIdentity := by
  have hcols := rows_eq_cols_of_isSquare hsquare
  have hright : a.rows ≤ 2 * a.rows := by omega
  refine ⟨rfl, hcols.le, hright, fun i _ hi j hj => ?_⟩
  symm
  exact (entry_ofFn _ hi (hj.trans_le hright)).trans (if_pos hj)

theorem agreeFrom_startMatrix (haug : system.isAugmented = true) (method : Method) :
    AgreeFrom 0 system.rows (system.startMatrix method)
      system.coefficientPart.besideIdentity := by
  obtain ⟨-, hcols⟩ := isAugmented_iff.mp haug
  have hbeside := agreeFrom_besideIdentity system.isSquare_coefficientPart
  have hright : system.rows ≤ 2 * system.rows := hbeside.right_le
  cases method with
  | inverseMatrix => exact ⟨rfl, hright, hright, fun _ _ _ _ _ => rfl⟩
  | _ =>
    refine ⟨rfl, by simp [startMatrix, hcols], hright, fun i _ (hi : i < system.rows) j hj => ?_⟩
    rw [startMatrix, ← system.entry_coefficientPart hi hj]
    exact hbeside.entry_eq i (Nat.zero_le i) hi j hj

/-- The reduction of any method goes forward as that of the coefficients beside the identity. -/
theorem reduction_forward (haug : system.isAugmented = true) (method : Method) :
    forwardSteps (system.reduction method).steps =
        forwardSteps (system.coefficientPart.besideIdentity.reduce .all).steps ∧
      ∀ e, (system.reduction method).outcome = .error e ↔
        (system.coefficientPart.besideIdentity.reduce .all).outcome = .error e := by
  have h := (agreeFrom_startMatrix haug method).reduceFrom (Nat.zero_add system.rows).le
    (by rw [rows_startMatrix, Nat.zero_add]) method.sweep .all
  rw [reduction, reduce, rows_startMatrix]
  exact h

theorem forwardSteps_invert (hsquare : a.isSquare = true) :
    forwardSteps a.invert.steps = forwardSteps (a.besideIdentity.reduce .all).steps := by
  cases hreduce : (a.besideIdentity.reduce .all).outcome with
  | ok work =>
    rw [invert_of_ok hsquare hreduce]
    change forwardSteps (_ ++ [.inverse _]) = _
    rw [forwardSteps_append]
    exact List.append_nil _
  | error e =>
    rw [invert_of_error hsquare hreduce]
    rfl

theorem inverse_eq_ok_iff (hsquare : a.isSquare = true) :
    (∃ inverse, a.inverse = .ok inverse) ↔
      ∃ work, (a.besideIdentity.reduce .all).outcome = .ok work := by
  rw [inverse]
  cases hreduce : (a.besideIdentity.reduce .all).outcome with
  | ok work => simp [invert_of_ok hsquare hreduce]
  | error e => simp [invert_of_error hsquare hreduce]

theorem inverse_eq_error_iff (hsquare : a.isSquare = true) :
    a.inverse = .error e ↔ (a.besideIdentity.reduce .all).outcome = .error e := by
  rw [inverse]
  cases hreduce : (a.besideIdentity.reduce .all).outcome with
  | ok work => simp [invert_of_ok hsquare hreduce]
  | error e' => simp [invert_of_error hsquare hreduce]

/-! ## Attempts -/

theorem started_attempt_iff :
    Started (system.attempt method).steps ↔ Starts system method := by
  constructor
  · rintro ⟨start, hstart⟩
    by_contra hstarts
    obtain ⟨opening, closing, hsteps, hopening, hclosing⟩ := steps_attempt_of_not_starts hstarts
    rw [hsteps] at hstart
    rcases List.mem_append.mp hstart with hstart | hstart
    · exact hopening.notMem (by simp [Step.phase]) hstart
    · exact hclosing.notMem (by simp [Step.phase]) hstart
  · intro hstarts
    obtain ⟨reading, closing, hsteps, -, -⟩ := steps_attempt_of_starts hstarts
    exact ⟨system.startMatrix method, by simp [hsteps]⟩

theorem forwardSteps_attempt (h : Starts system method) :
    forwardSteps (system.attempt method).steps =
      forwardSteps (system.reduction method).steps := by
  obtain ⟨reading, closing, hsteps, hreading, hclosing⟩ := steps_attempt_of_starts h
  have hinitial : forwardSteps
      (.snapshot .initial (system.startMatrix method) ::
        ((system.reduction method).steps ++ (reading ++ closing))) =
      forwardSteps ((system.reduction method).steps ++ (reading ++ closing)) := rfl
  rw [hsteps, forwardSteps_append, hinitial, forwardSteps_append, forwardSteps_append,
    (system.inPhase_openingSteps method).forwardSteps_eq_nil (by decide),
    hreading.forwardSteps_eq_nil (by decide), hclosing.forwardSteps_eq_nil (by decide)]
  simp

theorem copy_mem_attempt_iff (h : Starts system method) {copy : DenseMatrix α} :
    .snapshot (.afterColumn k) copy ∈ (system.attempt method).steps ↔
      .snapshot (.afterColumn k) copy ∈ (system.reduction method).steps := by
  obtain ⟨reading, closing, hsteps, hreading, hclosing⟩ := steps_attempt_of_starts h
  have hphase : (.snapshot (.afterColumn k) copy : Step α).phase = .reduction := rfl
  have hopening := (system.inPhase_openingSteps method).notMem (hphase.trans_ne (by decide))
  have hreading' := hreading.notMem (hphase.trans_ne (by decide))
  have hclosing' := hclosing.notMem (hphase.trans_ne (by decide))
  rw [hsteps]
  simp [hopening, hreading', hclosing']

/-- The checks of a candidate only find fault with what is not finite. -/
theorem error_of_check {x : List α} (haug : system.isAugmented = true)
    (hlength : x.length = system.rows) (h : (system.check x).outcome = .error e) :
    ∃ place, e = .nonFinite place := by
  have hresiduals (rs : List α) (row : ℕ) (worst : α)
      (h : (system.checkResiduals row worst rs).outcome = .error e) : e = .nonFinite .residual := by
    induction rs generalizing row worst with
    | nil => cases h
    | cons r rs ih =>
      simp only [checkResiduals] at h
      by_cases hr : Scalar.isFinite (Scalar.abs r) = true
      · rw [if_pos hr] at h
        exact ih _ _ h
      · rw [if_neg hr] at h
        cases h
        rfl
  unfold check at h
  split_ifs at h
  · rw [residuals_eq haug hlength] at h
    exact ⟨_, hresiduals _ _ _ h⟩
  · cases h
    exact ⟨_, rfl⟩

/-- The coefficients alone decide whether a method starts. -/
theorem starts_iff (hvalid : system.validate = .ok ()) :
    Starts system method ↔ system.coefficientPart.rank = system.rows ∧
      (method = .inverseMatrix →
        ∃ d, system.coefficientPart.determinant = .ok d ∧ isNearZero d = false) := by
  have hunique := status_classification_eq_unique_iff (validate_eq_ok_iff.mp hvalid).1
  simp only [determinant_coefficientPart, Except.ok.injEq, exists_eq_left']
  exact ⟨fun h => ⟨hunique.mp h.unique, h.determinant⟩,
    fun ⟨hrank, hdet⟩ => ⟨hvalid, hunique.mpr hrank, hdet⟩⟩

theorem attempt_eq_zeroPivot_iff (hvalid : system.validate = .ok ()) :
    (system.attempt method).outcome = .error (.zeroPivot k) ↔
      Starts system method ∧ (system.reduction method).outcome = .error (.zeroPivot k) := by
  constructor
  · intro h
    by_cases hstarts : Starts system method
    · refine ⟨hstarts, ?_⟩
      cases hreduction : (system.reduction method).outcome with
      | error e =>
        have hstrategy := strategy_of_stuck hstarts hreduction
        rw [attempt_of_failed (by rw [hstrategy])] at h
        cases h
        rfl
      | ok work =>
        have hstrategy : (system.strategy method).outcome =
            .ok (.candidate (system.readOff work method)) := by
          rw [strategy_of_reduced hstarts hreduction]
        cases hcheck : (system.check (system.readOff work method)).outcome with
        | ok r =>
          rw [attempt_of_checked hstrategy hcheck] at h
          cases h
        | error e =>
          rw [attempt_of_refused hstrategy hcheck] at h
          obtain ⟨place, rfl⟩ := error_of_check (validate_eq_ok_iff.mp hvalid).1
            (length_of_candidate hstrategy) hcheck
          cases h
    · rcases strategy_of_not_starts hstarts with
        ⟨e, he, -⟩ | ⟨-, -, -, hs⟩ | ⟨-, -, -, hs⟩
      · rw [hvalid] at he
        cases he
      · rw [attempt_of_failed (by rw [hs])] at h
        cases h
      · rw [attempt_eq_of_stopped (by rw [hs])] at h
        cases h
  · rintro ⟨hstarts, hstuck⟩
    have hstrategy := strategy_of_stuck hstarts hstuck
    rw [attempt_of_failed (by rw [hstrategy])]

/-! ## Right-hand sides -/

def withRhs (a : DenseMatrix α) (b : List α) : DenseMatrix α :=
  ofFn a.rows (a.rows + 1) fun i j => if j < a.rows then a.entry i j else b.getD i 0

@[simp] theorem rows_withRhs (a : DenseMatrix α) (b : List α) : (a.withRhs b).rows = a.rows := rfl

theorem augment_eq {b : List α} (hsquare : a.isSquare = true) (hlength : b.length = a.rows) :
    a.augment b = .ok (a.withRhs b) := by
  unfold augment
  rw [checkSquare, if_pos hsquare]
  exact if_pos hlength

theorem coefficientPart_withRhs (hsquare : a.isSquare = true) (b : List α) :
    (a.withRhs b).coefficientPart = a := by
  have hcols := rows_eq_cols_of_isSquare hsquare
  refine ext_entry rfl hcols ?_
  intro i (hi : i < a.rows) j (hj : j < a.rows)
  rw [(a.withRhs b).entry_coefficientPart hi hj, withRhs, entry_ofFn _ hi (by omega), if_pos hj]

theorem validate_withRhs {b : List α} (hsquare : a.isSquare = true) (hpos : 1 ≤ a.rows)
    (hfinite : a.isFinite = true) (hlength : b.length = a.rows)
    (hb : b.all Scalar.isFinite = true) : (a.withRhs b).validate = .ok () := by
  have hcols := rows_eq_cols_of_isSquare hsquare
  refine validate_eq_ok_iff.mpr ⟨isAugmented_iff.mpr ⟨hpos, rfl⟩, isFinite_iff.mpr ?_⟩
  intro i (hi : i < a.rows) j (hj : j < a.rows + 1)
  rw [withRhs, entry_ofFn _ hi hj]
  split_ifs with hja
  · exact isFinite_iff.mp hfinite i hi j (hcols ▸ hja)
  · have hmem : b.getD i 0 ∈ b := by
      rw [List.getD_eq_getElem?_getD, List.getElem?_eq_getElem (hlength ▸ hi)]
      exact List.getElem_mem _
    exact List.all_eq_true.mp hb _ hmem

end DenseMatrix

/-- A failed attempt reports the message of its error, every other one reports none. -/
theorem error_solve_eq_iff [Scalar α] {system : DenseMatrix α} {method : Method} {traced : Bool}
    {message : String} : (solve system method traced).error = some message ↔
      ∃ e, (system.attempt method).outcome = .error e ∧ e.message = message := by
  unfold solve Report.ofDerivation
  cases (system.attempt method).outcome with
  | ok verdict => cases verdict <;> simp
  | error e => simp

/-- Over doubles, the inverse of finite square coefficients exists or lacks a pivot in some column,
and every method that starts with any finite right-hand side goes the same way. It records the same
pivots, exchanges and divisions and clears the rows below in the same way, and it comes through the
last column, or reports a zero pivot, exactly when the inversion does so. Whether a method starts
depends on the coefficients alone, so all this is the same for any two right-hand sides. -/
theorem same_pivots_of_coefficients (a : DenseMatrix Float) (hsquare : a.isSquare = true)
    (hpos : 1 ≤ a.rows) (hfinite : a.isFinite = true) :
    ((∃ inverse, a.inverse = .ok inverse) ∨ ∃ k < a.rows, a.inverse = .error (.zeroPivot k)) ∧
      ∀ (b : List Float) (method : Method), b.length = a.rows → b.all Scalar.isFinite = true →
        ∃ system steps, a.augment b = .ok system ∧
          (solve system method true).trace = some ⟨true, steps⟩ ∧
          (Started steps ↔ a.rank = a.rows ∧
            (method = .inverseMatrix → ∃ d, a.determinant = .ok d ∧ isNearZero d = false)) ∧
          (Started steps → forwardSteps steps = forwardSteps a.invert.steps ∧
            ((∃ copy, .snapshot (.afterColumn (a.rows - 1)) copy ∈ steps) ↔
              ∃ inverse, a.inverse = .ok inverse)) ∧
          ∀ traced k, (solve system method traced).error = some (Error.zeroPivot k).message ↔
            Started steps ∧ a.inverse = .error (.zeroPivot k) := by
  refine ⟨?_, fun b method hlength hb => ?_⟩
  · cases hinverse : a.inverse with
    | ok inverse => exact .inl ⟨inverse, rfl⟩
    | error e =>
      obtain ⟨k, hk, rfl⟩ :=
        DenseMatrix.error_of_reduce ((DenseMatrix.inverse_eq_error_iff hsquare).mp hinverse)
      exact .inr ⟨k, hk, rfl⟩
  · have hvalid := DenseMatrix.validate_withRhs hsquare hpos hfinite hlength hb
    have haug := (DenseMatrix.validate_eq_ok_iff.mp hvalid).1
    have hcoefficients := DenseMatrix.coefficientPart_withRhs hsquare b
    obtain ⟨hforward, herror⟩ := DenseMatrix.reduction_forward haug method
    rw [hcoefficients] at hforward herror
    refine ⟨_, _, DenseMatrix.augment_eq hsquare hlength, trace_solve _ method true, ?_,
      fun hstarted => ?_, fun traced k => ?_⟩
    · rw [DenseMatrix.started_attempt_iff, DenseMatrix.starts_iff hvalid, hcoefficients]
      rfl
    · have hstarts := DenseMatrix.started_attempt_iff.mp hstarted
      have hcopies : (∃ work, ((a.withRhs b).reduction method).outcome = .ok work) ↔
          ∃ copy, .snapshot (.afterColumn (a.rows - 1)) copy ∈
            ((a.withRhs b).reduction method).steps := by
        have hrows := (a.withRhs b).rows_startMatrix method
        rw [← a.rows_withRhs b, ← hrows]
        exact DenseMatrix.exists_reduce_iff_copy (hrows ▸ hpos)
      constructor
      · rw [DenseMatrix.forwardSteps_attempt hstarts, hforward,
          DenseMatrix.forwardSteps_invert hsquare]
      · simp only [DenseMatrix.copy_mem_attempt_iff hstarts]
        rw [DenseMatrix.inverse_eq_ok_iff hsquare, ← hcopies]
        exact exists_ok_iff_of_error_iff herror
    · simp only [error_solve_eq_iff, Error.message_eq_zeroPivot_iff, exists_eq_right]
      rw [DenseMatrix.attempt_eq_zeroPivot_iff hvalid, DenseMatrix.started_attempt_iff, herror,
        DenseMatrix.inverse_eq_error_iff hsquare]

/-- The ranks of these coefficients promise a unique solution, and their elimination finds no pivot
in the second column. -/
theorem same_pivots_of_stuck_elimination :
    let a : DenseMatrix Float := ⟨2, 2, #[7, 7, 1000000, 1000000], rfl⟩
    ∃ first second, a.augment [1, 0] = .ok first ∧ a.augment [0, 3] = .ok second ∧
      a.inverse = .error (.zeroPivot 1) ∧
      (solve first .gauss false).error = some (Error.zeroPivot 1).message ∧
      (solve second .gaussJordan false).error = some (Error.zeroPivot 1).message := by
  intro a
  have hstuck : (match a.inverse with
      | .ok _ => false
      | .error e => decide (e = .zeroPivot 1)) = true := by decide +kernel
  have hinverse : a.inverse = .error (.zeroPivot 1) := by
    split at hstuck
    · cases hstuck
    · rename_i herror
      rw [herror, of_decide_eq_true hstuck]
  have hrank : a.rank = a.rows := by decide +kernel
  obtain ⟨-, hmethods⟩ :=
    same_pivots_of_coefficients a (by decide +kernel) (by decide) (by decide +kernel)
  obtain ⟨first, steps, hfirst, -, hstarted, -, herror⟩ :=
    hmethods [1, 0] .gauss rfl (by decide +kernel)
  obtain ⟨second, steps', hsecond, -, hstarted', -, herror'⟩ :=
    hmethods [0, 3] .gaussJordan rfl (by decide +kernel)
  refine ⟨first, second, hfirst, hsecond, hinverse, ?_, ?_⟩
  · exact (herror false 1).mpr ⟨hstarted.mpr ⟨hrank, nofun⟩, hinverse⟩
  · exact (herror' false 1).mpr ⟨hstarted'.mpr ⟨hrank, nofun⟩, hinverse⟩

end DenseSystem
