import Mathlib
import DenseSystem.Proofs.Exact.Decision
import DenseSystem.Proofs.Solver.Forward

/-! # Determinants and pivots

The elimination behind a determinant leaves its pivot rows as they are, the one that solves and
inverts divides them. Over the rationals both find the same pivots in the same rows. So a
determinant is the product of the recorded pivots, negated once for each recorded exchange, and it
is zero exactly when the other elimination fails.
-/
namespace DenseSystem

variable [Tolerance]

def Step.isExchange {α : Type} : Step α → Bool
  | rowsSwapped .. => true
  | _ => false

def signedPivots (steps : List (Step ℚ)) : ℚ :=
  (-1) ^ steps.countP Step.isExchange * (steps.filterMap Step.pivotValue?).prod

theorem signedPivots_append (first second : List (Step ℚ)) :
    signedPivots (first ++ second) = signedPivots first * signedPivots second := by
  simp only [signedPivots, List.countP_append, List.filterMap_append, List.prod_append, pow_add]
  ring

/-- Steps that neither choose a pivot nor exchange rows do not count. -/
theorem signedPivots_eq_one {steps : List (Step ℚ)}
    (h : ∀ step ∈ steps, step.isExchange = false ∧ step.pivotValue? = none) :
    signedPivots steps = 1 := by
  have hcount : steps.countP Step.isExchange = 0 :=
    List.countP_eq_zero.mpr fun step hstep => by simp [(h step hstep).1]
  have hvalues : steps.filterMap Step.pivotValue? = [] :=
    List.filterMap_eq_nil_iff.mpr fun step hstep => (h step hstep).2
  rw [signedPivots, hcount, hvalues, List.prod_nil, pow_zero, one_mul]

theorem signedPivots_selected (k p : ℕ) (v : ℚ) : signedPivots [.pivotSelected k p v] = v := by
  have hvalues : [.pivotSelected k p v].filterMap Step.pivotValue? = [v] := rfl
  rw [signedPivots, hvalues, List.prod_singleton]
  exact one_mul v

theorem signedPivots_exchanged (i j : ℕ) : signedPivots [.rowsSwapped i j] = -1 := by
  have hvalues : [.rowsSwapped i j].filterMap (Step.pivotValue? : Step ℚ → _) = [] := rfl
  rw [signedPivots, hvalues, List.prod_nil, mul_one]
  exact pow_one (-1)

namespace DenseMatrix

open Matrix

variable {a b work : DenseMatrix ℚ} {k width : ℕ}

theorem signedPivots_columnSteps (work : DenseMatrix ℚ) (k : ℕ) (sweep : Sweep) :
    signedPivots (work.columnSteps k sweep) =
      (if work.pivotRow k k = k then 1 else -1) * work.pivot k := by
  have hrest : signedPivots (.rowNormalized k (work.pivot k) ::
      ((work.normalized k).eliminations k sweep ++
        [.snapshot (.afterColumn k) (work.reduced k sweep)])) = 1 := by
    apply signedPivots_eq_one
    intro step hstep
    simp only [List.mem_cons, List.mem_append, eliminations, List.mem_map, List.not_mem_nil,
      or_false] at hstep
    rcases hstep with rfl | ⟨i, -, rfl⟩ | rfl <;> exact ⟨rfl, rfl⟩
  rw [columnSteps, ← List.singleton_append, signedPivots_append, signedPivots_append, hrest,
    signedPivots_selected, mul_one, mul_comm]
  congr 1
  split_ifs
  · exact signedPivots_eq_one (by simp)
  · exact signedPivots_exchanged _ _

/-! ## Two eliminations side by side -/

theorem broughtUp_pivotRow (work : DenseMatrix ℚ) (k i : ℕ) :
    broughtUp k (work.pivotRow k k) i = work.sourceRow k i := by
  unfold broughtUp sourceRow
  split_ifs <;> omega

/-- A row below the pivot loses the same multiple of the pivot row, be that divided or not. -/
theorem entry_subtracted_eq_reduced (sweep : Sweep) (hk : k < work.rows) (hkc : k < work.cols)
    (hp : isNearZero (work.pivot k) = false) {i j : ℕ} (hki : k < i) (hi : i < work.rows)
    (hj : j < work.cols) :
    (work.subtracted k k (work.pivotRow k k)).entry i j = (work.reduced k sweep).entry i j := by
  have hle := work.le_pivotRow k k
  have hlt := work.pivotRow_lt k hk
  have hne : work.pivot k ≠ 0 := Exact.ne_zero_of_not_isNearZero hp
  rw [entry_reduced_below sweep hk hkc hki hi hj]
  rcases lt_trichotomy j k with hjk | rfl | hkj
  · rw [if_pos (Or.inr hjk), entry_subtracted_of_done hi hj (Or.inr hjk), broughtUp_pivotRow]
  · rw [entry_subtracted_column hj hle hlt hne hi hki]
    by_cases hz : Scalar.isZero (work.entry (work.sourceRow j i) j) = true
    · rw [if_pos (Or.inl hz)]
      exact (Exact.isZero_iff.mp hz).symm
    · rw [if_neg (by simp [hz]), if_pos rfl]
  · rw [entry_subtracted hlt hle hi hj hkc hki hkj.le, factor, broughtUp_pivotRow]
    change (if Scalar.isZero (work.entry (work.sourceRow k i) k / work.pivot k) = true then _ else
      work.entry (work.sourceRow k i) j - work.entry (work.sourceRow k i) k / work.pivot k *
        work.entry (work.pivotRow k k) j) = _
    by_cases hz : work.entry (work.sourceRow k i) k = 0
    · rw [hz, zero_div, if_pos (Exact.isZero_iff.mpr rfl),
        if_pos (Or.inl (Exact.isZero_iff.mpr rfl))]
    · have hfactor : work.entry (work.sourceRow k i) k / work.pivot k ≠ 0 := div_ne_zero hz hne
      rw [if_neg (mt Exact.isZero_iff.mp hfactor), if_neg (by simp [Exact.isZero_iff, hz]; omega),
        if_neg hkj.ne', div_mul_eq_mul_div, mul_div_assoc]

/-- The two eliminations agree in the rows that have no pivot yet. -/
theorem AgreeFrom.subtracted_reduced (h : AgreeFrom k width a b) (hk : k < a.rows)
    (hkw : k < width) (hp : isNearZero (a.pivot k) = false) (sweep : Sweep) :
    AgreeFrom (k + 1) width (a.subtracted k k (a.pivotRow k k)) (b.reduced k sweep) := by
  have hleft := h.left_le
  refine ⟨h.rows_eq, hleft, h.right_le, fun i hki (hi : i < a.rows) j hj => ?_⟩
  rw [entry_subtracted_eq_reduced sweep hk (by omega) hp hki hi (by omega)]
  exact (h.reduced hk hkw sweep sweep).entry_eq i hki hi j hj

/-- If the elimination succeeds, the signed product of its pivots is not zero and is what the
determinant is multiplied by. If it fails, the determinant is zero. -/
theorem AgreeFrom.determinantFrom {left : ℕ} (h : AgreeFrom k width a b)
    (hwidth : k + left ≤ width) (hrows : k + left ≤ a.rows) (sweep : Sweep) (det : ℚ) :
    (∃ work, (b.reduceFrom sweep k left).outcome = .ok work ∧
        signedPivots (b.reduceFrom sweep k left).steps ≠ 0 ∧
        a.determinantFrom det k left = det * signedPivots (b.reduceFrom sweep k left).steps) ∨
      ∃ j, (b.reduceFrom sweep k left).outcome = .error (.zeroPivot j) ∧
        a.determinantFrom det k left = 0 := by
  induction left generalizing k a b det with
  | zero =>
    have hone : signedPivots (b.reduceFrom sweep k 0).steps = 1 := signedPivots_eq_one nofun
    exact .inl ⟨b, rfl, by rw [hone]; exact one_ne_zero, by rw [hone, mul_one]; rfl⟩
  | succ left ih =>
    have hk : k < a.rows := by omega
    have hkw : k < width := by omega
    have hpivot := h.pivot_eq hk hkw
    have hrow := h.pivotRow_eq hkw hk
    rw [determinantFrom_succ, reduceFrom_succ, ← hpivot, ← hrow]
    cases hp : isNearZero (a.pivot k) with
    | true => exact .inr ⟨k, rfl, rfl⟩
    | false =>
      have hnext := h.subtracted_reduced hk hkw hp sweep
      have hcolumn : signedPivots (b.columnSteps k sweep) =
          (if a.pivotRow k k = k then 1 else -1) * a.pivot k := by
        rw [signedPivots_columnSteps, ← hpivot, ← hrow]
      have hne : signedPivots (b.columnSteps k sweep) ≠ 0 := by
        rw [hcolumn]
        apply mul_ne_zero _ (Exact.ne_zero_of_not_isNearZero hp)
        split_ifs <;> norm_num
      have hsign : (if a.pivotRow k k = k then det else -det) * a.pivot k =
          det * signedPivots (b.columnSteps k sweep) := by
        rw [hcolumn]
        split_ifs <;> ring
      simp only [Bool.false_eq_true, if_false]
      rcases ih hnext (by omega) (by rw [rows_subtracted]; omega)
          ((if a.pivotRow k k = k then det else -det) * a.pivot k) with
        ⟨work, hwork, hrest, heq⟩ | ⟨j, hj, heq⟩
      · refine .inl ⟨work, hwork, ?_, ?_⟩
        · rw [signedPivots_append]
          exact mul_ne_zero hne hrest
        · rw [heq, hsign, signedPivots_append, mul_assoc]
      · exact .inr ⟨j, hj, heq⟩

/-- Any elimination that starts with the columns of `a` tells the determinant of `a`. -/
theorem AgreeFrom.determinant_cases (h : AgreeFrom 0 a.rows a b) (sweep : Sweep) :
    (∃ work, (b.reduce sweep).outcome = .ok work ∧ a.determinantFrom 1 0 a.rows ≠ 0 ∧
        a.determinantFrom 1 0 a.rows = signedPivots (b.reduce sweep).steps) ∨
      ∃ j, (b.reduce sweep).outcome = .error (.zeroPivot j) ∧
        a.determinantFrom 1 0 a.rows = 0 := by
  have hrows : 0 + a.rows ≤ a.rows := (Nat.zero_add a.rows).le
  rw [reduce, ← h.rows_eq]
  rcases h.determinantFrom hrows hrows sweep 1 with ⟨work, hwork, hne, heq⟩ | hfails
  · rw [one_mul] at heq
    exact .inl ⟨work, hwork, heq ▸ hne, heq⟩
  · exact .inr hfails

theorem signedPivots_invert (hsquare : a.isSquare = true)
    (hwork : (a.besideIdentity.reduce .all).outcome = .ok work) :
    signedPivots a.invert.steps = signedPivots (a.besideIdentity.reduce .all).steps := by
  have hfirst : signedPivots [.snapshot .initial a.besideIdentity] = 1 :=
    signedPivots_eq_one (by simp [Step.isExchange, Step.pivotValue?])
  have hlast : signedPivots [.inverse (work.rightHalf a.rows)] = 1 :=
    signedPivots_eq_one (by simp [Step.isExchange, Step.pivotValue?])
  rw [invert_of_ok hsquare hwork, ← List.singleton_append, signedPivots_append, signedPivots_append,
    hfirst, hlast, one_mul, mul_one]

/-- A determinant that is not zero has been computed to its end, with pivots that will do. -/
theorem determinantFrom_eq_of_ne_zero (hshape : a.rows ≤ a.cols)
    (h : a.determinantFrom 1 0 a.rows ≠ 0) :
    a.determinantFrom 1 0 a.rows = (a.toMatrix a.rows a.rows).det :=
  determinantFrom_eq hshape fun v hv =>
    .inr (Exact.isNearZero_eq_false_iff.mp (isNearZero_of_mem_determinantTests h v hv))

end DenseMatrix

/-- What is computed as a determinant is the determinant unless it is zero, and also then if no
nonzero pivot was taken for zero. It is zero exactly when the inversion lacks a pivot. Otherwise it
is the product of the pivots that an elimination of the matrix records, alone or beside the
identity, negated once for each exchange. -/
theorem determinant_of_recorded_pivots (a : DenseMatrix ℚ) (hsquare : a.isSquare = true) :
    ∃ d, a.determinant = .ok d ∧
      (d ≠ 0 → d = (a.toMatrix a.rows a.rows).det) ∧
      ((∀ v ∈ a.determinantTests 1 0 a.rows, v = 0 ∨ Scalar.tolerance ≤ |v|) →
        d = (a.toMatrix a.rows a.rows).det) ∧
      (d = 0 ↔ ∃ k, a.inverse = .error (.zeroPivot k)) ∧
      (d ≠ 0 → ∀ steps, (steps = a.invert.steps ∨ ∃ sweep, steps = (a.reduce sweep).steps) →
        d = (-1) ^ steps.countP Step.isExchange * (steps.filterMap Step.pivotValue?).prod) := by
  have hshape := DenseMatrix.rows_eq_cols_of_isSquare hsquare
  have hself : a.AgreeFrom 0 a.rows a := ⟨rfl, hshape.le, hshape.le, fun _ _ _ _ _ => rfl⟩
  have hbeside := DenseMatrix.agreeFrom_besideIdentity hsquare
  refine ⟨_, DenseMatrix.determinant_of_isSquare hsquare,
    DenseMatrix.determinantFrom_eq_of_ne_zero hshape.le, DenseMatrix.determinantFrom_eq hshape.le,
    ?_, ?_⟩
  · simp only [DenseMatrix.inverse_eq_error_iff hsquare]
    rcases hbeside.determinant_cases .all with ⟨work, hwork, hne, -⟩ | ⟨j, hj, hzero⟩
    · exact iff_of_false hne (by simp [hwork])
    · exact iff_of_true hzero ⟨j, hj⟩
  · rintro hne steps (rfl | ⟨sweep, rfl⟩)
    · rcases hbeside.determinant_cases .all with ⟨work, hwork, -, heq⟩ | ⟨-, -, hzero⟩
      · rw [heq, ← DenseMatrix.signedPivots_invert hsquare hwork]
        rfl
      · exact absurd hzero hne
    · rcases hself.determinant_cases sweep with ⟨-, -, -, heq⟩ | ⟨-, -, hzero⟩
      · exact heq
      · exact absurd hzero hne

omit [Tolerance] in
/-- The second pivot is brought up, and the third is not the entry that stood there. -/
theorem determinant_of_three_rows :
    let _ : Tolerance := .decimal
    let a : DenseMatrix ℚ := ⟨3, 3, #[4, 2, 1, 2, 1, 3, 1, 5, 2], rfl⟩
    a.isSquare = true ∧ (∀ v ∈ a.determinantTests 1 0 3, v = 0 ∨ Scalar.tolerance ≤ |v|) ∧
      (a.toMatrix 3 3).det = -45 ∧ (¬ ∃ k, a.inverse = .error (.zeroPivot k)) ∧
      (-1) ^ (a.reduce .below).steps.countP Step.isExchange *
        ((a.reduce .below).steps.filterMap Step.pivotValue?).prod = -45 := by
  intro _ a
  have hclear : ∀ v ∈ a.determinantTests 1 0 3, v = 0 ∨ Scalar.tolerance ≤ |v| := by
    decide +kernel
  have hvalue : a.determinant = .ok (-45) := by decide +kernel
  obtain ⟨d, hd, -, hdet, hzero, hpivots⟩ := determinant_of_recorded_pivots a rfl
  obtain rfl : -45 = d := Except.ok.inj (hvalue.symm.trans hd)
  have hne : (-45 : ℚ) ≠ 0 := by norm_num
  exact ⟨rfl, hclear, (hdet hclear).symm, mt hzero.mpr hne,
    (hpivots hne _ (.inr ⟨.below, rfl⟩)).symm⟩

end DenseSystem
