import Mathlib.Tactic
import DenseSystem.Proofs.Solver.Check

/-! # Where candidates come from

Each method reads its candidate off a completely reduced matrix: from the last unknown to the first,
from the last column, or as a product with the right half.
-/
namespace DenseSystem.DenseMatrix

variable {α : Type} [Scalar α]

@[simp] theorem length_rhsPart (m : DenseMatrix α) : m.rhsPart.length = m.rows := by
  simp [rhsPart]

theorem getD_rhsPart (m : DenseMatrix α) {i : ℕ} (hi : i < m.rows) :
    m.rhsPart.getD i 0 = m.entry i m.rows := by
  simp [rhsPart, hi]

@[simp] theorem length_backSubstitute (work : DenseMatrix α) (i left : ℕ) :
    (work.backSubstitute i left).length = left := by
  induction left generalizing i with
  | zero => rfl
  | succ left ih => simp [backSubstitute, ih]

/-- The later unknowns are those of a back substitution that ends earlier. -/
theorem drop_backSubstitute (work : DenseMatrix α) {d i left : ℕ} (h : d ≤ left) :
    (work.backSubstitute i left).drop d = work.backSubstitute (i + d) (left - d) := by
  induction d generalizing i left with
  | zero => rfl
  | succ d ih =>
    cases left with
    | zero => omega
    | succ left =>
      rw [backSubstitute, List.drop_succ_cons, ih (by omega)]
      congr 1 <;> omega

theorem getD_backSubstitute (work : DenseMatrix α) {d n : ℕ} (h : d < n) :
    (work.backSubstitute 0 n).getD d 0 =
      work.entry d work.rows -
        scalarProduct ((List.range' (d + 1) (n - (d + 1))).map (work.entry d))
          (work.backSubstitute (d + 1) (n - (d + 1))) := by
  have hhead := work.drop_backSubstitute (i := 0) h.le
  rw [Nat.zero_add, show n - d = n - (d + 1) + 1 by omega, backSubstitute] at hhead
  have hget : (work.backSubstitute 0 n).getD d 0 =
      ((work.backSubstitute 0 n).drop d).getD 0 0 := by
    simp [List.getD_eq_getElem?_getD]
  rw [hget, hhead]
  rfl

/-! ## The three methods -/

variable {system : DenseMatrix α} {x : List α}

theorem gauss_eq_candidate (h : system.gauss.outcome = .ok (.candidate x)) :
    system.validate = .ok () ∧ system.classification.status = .unique ∧
      ∃ work, (system.reduce .below).outcome = .ok work ∧ x = work.backSubstitute 0 work.rows ∧
        system.gauss.steps = .classified system.classification :: .snapshot .initial system ::
          ((system.reduce .below).steps ++ substitutions x) := by
  obtain ⟨hvalid, hunique, work, hwork, hx, hsteps⟩ := eliminate_eq_candidate h
  cases hx
  refine ⟨hvalid, hunique, work, hwork, rfl, ?_⟩
  rw [← List.append_nil (substitutions _)]
  exact hsteps

theorem rows_of_reduce {work : DenseMatrix α} {sweep : Sweep}
    (h : (system.reduce sweep).outcome = .ok work) :
    work.rows = system.rows ∧ work.cols = system.cols :=
  rows_of_reduceFrom (Nat.zero_add system.rows).le h

theorem column_eq_rhsPart {m : DenseMatrix α} (h : m.rows < m.cols) :
    m.column m.rows = .ok m.rhsPart := if_pos h

theorem gaussJordan_eq_candidate (h : system.gaussJordan.outcome = .ok (.candidate x)) :
    system.validate = .ok () ∧ system.classification.status = .unique ∧
      ∃ work, (system.reduce .all).outcome = .ok work ∧ x = work.rhsPart ∧
        system.gaussJordan.steps = .classified system.classification ::
          .snapshot .initial system :: (system.reduce .all).steps := by
  obtain ⟨hvalid, hunique, work, hwork, hx, hsteps⟩ := eliminate_eq_candidate h
  obtain ⟨hrows, hcols⟩ := rows_of_reduce hwork
  obtain ⟨-, hshape⟩ := isAugmented_iff.mp (validate_eq_ok_iff.mp hvalid).1
  change work.column work.rows = .ok x at hx
  rw [column_eq_rhsPart (by omega)] at hx
  cases hx
  refine ⟨hvalid, hunique, work, hwork, rfl, ?_⟩
  rw [← List.append_nil (system.reduce .all).steps]
  exact hsteps

def rightHalf (work : DenseMatrix α) (n : ℕ) : DenseMatrix α :=
  ofFn n n fun i j => work.entry i (n + j)

theorem entry_rightHalf (work : DenseMatrix α) {n i j : ℕ} (hi : i < n) (hj : j < n) :
    (work.rightHalf n).entry i j = work.entry i (n + j) :=
  entry_ofFn _ hi hj

theorem block_eq_rightHalf {work : DenseMatrix α} {n : ℕ} (hrows : work.rows = n)
    (hcols : work.cols = 2 * n) : work.block 0 n n n = .ok (work.rightHalf n) := by
  rw [block, if_pos (by omega)]
  simp only [Nat.zero_add]
  rfl

def inverseProduct (system work : DenseMatrix α) : List α :=
  (List.range system.rows).map fun i =>
    scalarProduct ((List.range system.rows).map ((work.rightHalf system.rows).entry i))
      system.rhsPart

theorem multiply_rightHalf (system work : DenseMatrix α) :
    (work.rightHalf system.rows).multiply system.rhsPart =
      .ok (system.inverseProduct work) :=
  multiply_eq system.length_rhsPart

theorem invert_eq_rightHalf {m inverse : DenseMatrix α} (h : m.invert.outcome = .ok inverse) :
    ∃ work, (m.besideIdentity.reduce .all).outcome = .ok work ∧ inverse = work.rightHalf m.rows ∧
      m.invert.steps = .snapshot .initial m.besideIdentity ::
        ((m.besideIdentity.reduce .all).steps ++ [.inverse inverse]) := by
  obtain ⟨-, work, hwork, hblock, hsteps⟩ := invert_eq_ok h
  have hshape : work.rows = m.rows ∧ work.cols = 2 * m.rows := rows_of_reduce hwork
  rw [block_eq_rightHalf hshape.1 hshape.2] at hblock
  cases hblock
  exact ⟨work, hwork, rfl, hsteps⟩

theorem invert_eq (m : DenseMatrix α) (h : m.isSquare = true) :
    m.invert = Derivation.record (.snapshot .initial m.besideIdentity) >>= fun _ =>
      m.besideIdentity.reduce .all >>= fun reduced =>
        .ofExcept (reduced.block 0 m.rows m.rows m.rows) >>= fun inverse =>
          .record (.inverse inverse) >>= fun _ => pure inverse := by
  unfold invert
  rw [checkSquare, if_pos h]
  rfl

theorem invert_of_reduce {m work : DenseMatrix α} (h : m.isSquare = true)
    (hwork : (m.besideIdentity.reduce .all).outcome = .ok work) :
    m.invert.outcome = .ok (work.rightHalf m.rows) := by
  have hshape : work.rows = m.rows ∧ work.cols = 2 * m.rows := rows_of_reduce hwork
  rw [invert_eq m h, Derivation.record_bind, Derivation.bind_of_ok hwork,
    block_eq_rightHalf hshape.1 hshape.2]
  rfl

theorem mem_steps_invert {m : DenseMatrix α} (h : m.isSquare = true) {step : Step α}
    (hstep : step ∈ (m.besideIdentity.reduce .all).steps) : step ∈ m.invert.steps := by
  rw [invert_eq m h]
  exact List.mem_cons_of_mem _ (Derivation.mem_steps_bind hstep _)

theorem inverseMatrix_eq_product (h : system.inverseMatrix.outcome = .ok (.candidate x)) :
    system.validate = .ok () ∧ isNearZero system.coefficientDeterminant = false ∧
      system.classification.status = .unique ∧
      ∃ work, (system.coefficientPart.besideIdentity.reduce .all).outcome = .ok work ∧
        x = system.inverseProduct work ∧
        system.inverseMatrix.steps =
          .determinant system.coefficientDeterminant :: .classified system.classification ::
            .snapshot .initial system.coefficientPart.besideIdentity ::
              ((system.coefficientPart.besideIdentity.reduce .all).steps ++
                [.inverse (work.rightHalf system.rows)]) := by
  obtain ⟨hvalid, hdet, hunique, inverse, hinverse, hx, hsteps⟩ := inverseMatrix_eq_candidate h
  obtain ⟨work, hwork, rfl, hsteps'⟩ := invert_eq_rightHalf hinverse
  rw [rows_coefficientPart, multiply_rightHalf] at hx
  cases hx
  rw [hsteps', rows_coefficientPart] at hsteps
  exact ⟨hvalid, hdet, hunique, work, hwork, rfl, hsteps⟩

theorem length_of_candidate {method : Method}
    (h : (system.strategy method).outcome = .ok (.candidate x)) : x.length = system.rows := by
  cases method with
  | gauss =>
    obtain ⟨-, -, work, hwork, rfl, -⟩ := gauss_eq_candidate h
    rw [length_backSubstitute, (rows_of_reduce hwork).1]
  | gaussJordan =>
    obtain ⟨-, -, work, hwork, rfl, -⟩ := gaussJordan_eq_candidate h
    rw [length_rhsPart, (rows_of_reduce hwork).1]
  | inverseMatrix =>
    obtain ⟨-, -, -, work, -, rfl, -⟩ := inverseMatrix_eq_product h
    simp [inverseProduct]

theorem validate_of_candidate {method : Method}
    (h : (system.strategy method).outcome = .ok (.candidate x)) : system.validate = .ok () := by
  cases method with
  | gauss => exact (gauss_eq_candidate h).1
  | gaussJordan => exact (gaussJordan_eq_candidate h).1
  | inverseMatrix => exact (inverseMatrix_eq_product h).1

/-- A solution was checked. It is finite and so are its residuals, the largest of which is told. -/
theorem checked_of_solved {method : Method} {r : α}
    (h : (system.attempt method).outcome = .ok (.solved x r)) :
    x.all Scalar.isFinite = true ∧
      (∀ i < system.rows, Scalar.isFinite (Scalar.abs (system.residualAt x i)) = true) ∧
      r = worstResidual 0 ((List.range system.rows).map (system.residualAt x)) := by
  obtain ⟨hcandidate, hcheck, -⟩ := attempt_eq_solved h
  obtain ⟨haug, -⟩ := validate_eq_ok_iff.mp (validate_of_candidate hcandidate)
  have hlength := length_of_candidate hcandidate
  obtain ⟨hx, hresiduals⟩ := isFinite_of_check haug hlength hcheck
  rw [check_of_isFinite haug hlength hx hresiduals] at hcheck
  cases hcheck
  exact ⟨hx, hresiduals, rfl⟩

end DenseSystem.DenseMatrix
