import Mathlib
import DenseSystem.Proofs.Exact.Solutions

/-! # Soundness over the rationals

Whatever method reports a unique solution, and however the comparisons with the tolerance turned
out, the coefficients are nonsingular and the reported vector is the only solution of the system as
it was given.
-/
namespace DenseSystem

open Matrix

variable [Tolerance]

namespace DenseMatrix

variable {system work : DenseMatrix ℚ} {n : ℕ}

/-- Clearing a column everywhere leaves the identity. -/
theorem toMatrix_eq_one (h : ReducedUpTo .all n work) (hn : n ≤ work.rows) :
    work.toMatrix n n = 1 := by
  ext i j
  rw [toMatrix_apply]
  by_cases hij : i = j
  · rw [hij, one_apply_eq]
    exact (h j j.isLt).1
  · rw [one_apply_ne hij]
    exact h.entry_eq_zero j.isLt (by omega) (decide_eq_true fun he => hij (Fin.ext he))

/-- Clearing a column below its pivot leaves a triangular matrix with ones on the diagonal. -/
theorem det_toMatrix_eq_one (h : ReducedUpTo .below n work) (hn : n ≤ work.rows) :
    (work.toMatrix n n).det = 1 := by
  rw [det_of_isUpperTriangular]
  · exact Finset.prod_eq_one fun i _ => (h i i.isLt).1
  · intro i j hji
    exact h.entry_eq_zero j.isLt (by omega) (decide_eq_true hji)

theorem vectorOf_rhsPart (m : DenseMatrix ℚ) :
    vectorOf m.rows m.rhsPart = m.columnVector m.rows m.rows := by
  funext i
  exact m.getD_rhsPart i.isLt

omit [Tolerance] in
theorem getD_drop {x : List ℚ} {i j : ℕ} : (x.drop i).getD j 0 = x.getD (i + j) 0 := by
  simp [List.getD_eq_getElem?_getD]

/-- Back substitution solves the equations of a triangular matrix. -/
theorem solves_backSubstitute (h : ReducedUpTo .below work.rows work) :
    work.Solves (work.backSubstitute 0 work.rows) := by
  refine ⟨length_backSubstitute work 0 work.rows, fun i hi => ?_⟩
  set x := work.backSubstitute 0 work.rows with hx
  have htail : work.backSubstitute (i + 1) (work.rows - (i + 1)) = x.drop (i + 1) := by
    rw [hx, work.drop_backSubstitute (by omega), Nat.zero_add]
  have hlater : scalarProduct ((List.range' (i + 1) (work.rows - (i + 1))).map (work.entry i))
      (x.drop (i + 1)) =
        ∑ c ∈ Finset.range (work.rows - (i + 1)), work.entry i (i + 1 + c) * x.getD (i + 1 + c) 0 := by
    have hsum := scalarProduct_range' (work.entry i) (i + 1) (x.drop (i + 1))
    rw [List.length_drop, hx, length_backSubstitute, ← hx] at hsum
    rw [hsum]
    exact Finset.sum_congr rfl fun c _ => by rw [getD_drop]
  have hvalue : x.getD i 0 = work.entry i work.rows - ∑ c ∈ Finset.range (work.rows - (i + 1)),
      work.entry i (i + 1 + c) * x.getD (i + 1 + c) 0 := by
    rw [← hlater, ← htail]
    exact work.getD_backSubstitute hi
  have hearlier : ∑ j ∈ Finset.range i, work.entry i j * x.getD j 0 = 0 := by
    apply Finset.sum_eq_zero
    intro j hj
    have hji := Finset.mem_range.mp hj
    rw [h.entry_eq_zero (by omega) hi (decide_eq_true hji), zero_mul]
  calc ∑ j ∈ Finset.range work.rows, work.entry i j * x.getD j 0
      = ∑ j ∈ Finset.range (i + 1 + (work.rows - (i + 1))), work.entry i j * x.getD j 0 := by
        rw [Nat.add_sub_cancel' hi]
    _ = (∑ j ∈ Finset.range i, work.entry i j * x.getD j 0 + work.entry i i * x.getD i 0) +
          ∑ c ∈ Finset.range (work.rows - (i + 1)),
            work.entry i (i + 1 + c) * x.getD (i + 1 + c) 0 := by
        rw [Finset.sum_range_add, Finset.sum_range_succ]
    _ = work.entry i work.rows := by
        rw [hearlier, (h i hi).1, one_mul, zero_add, hvalue, sub_add_cancel]

theorem solves_of_reduce {sweep : Sweep} {x : List ℚ} (haug : system.isAugmented = true)
    (hwork : (system.reduce sweep).outcome = .ok work) (h : work.Solves x) : system.Solves x := by
  obtain ⟨-, hcols⟩ := isAugmented_iff.mp haug
  have hred := reducing_of_reduce (by omega) hwork
  rw [solves_iff, hred.rows_eq] at h
  rw [solves_iff]
  exact ⟨h.1, (hred.equivalent.solves_iff (by omega) _).mp h.2⟩

/-! ## The inverse beside the identity -/

theorem toMatrix_besideIdentity (m : DenseMatrix ℚ) :
    m.besideIdentity.toMatrix m.rows m.rows = m.toMatrix m.rows m.rows := by
  ext i j
  exact (entry_ofFn _ i.isLt (by omega)).trans (if_pos j.isLt)

theorem columnVector_besideIdentity (m : DenseMatrix ℚ) (j : Fin m.rows) :
    m.besideIdentity.columnVector m.rows (m.rows + j) = Pi.single j 1 := by
  funext i
  refine (entry_ofFn _ i.isLt (by omega)).trans ?_
  rw [if_neg (by omega), Pi.single_apply]
  simp only [Nat.add_left_cancel_iff, Fin.ext_iff, eq_comm]

theorem toMatrix_rightHalf (m : DenseMatrix ℚ) (n : ℕ) (i j : Fin n) :
    (m.rightHalf n).toMatrix n n i j = m.entry i (n + j) :=
  m.entry_rightHalf i.isLt j.isLt

/-- What is left beside the identity inverts the coefficients from the left. -/
theorem rightHalf_mul {m : DenseMatrix ℚ}
    (hwork : (m.besideIdentity.reduce .all).outcome = .ok work) :
    (work.rightHalf m.rows).toMatrix m.rows m.rows * m.toMatrix m.rows m.rows = 1 := by
  have hwide : m.rows ≤ 2 * m.rows := by omega
  have hred : Reducing .all m.besideIdentity m.rows work := reducing_of_reduce hwide hwork
  obtain ⟨P, -, hmul, hcol⟩ : ∃ P : Matrix (Fin m.rows) (Fin m.rows) ℚ, P.det ≠ 0 ∧
      (∀ k ≤ 2 * m.rows, work.toMatrix m.rows k = P * m.besideIdentity.toMatrix m.rows k) ∧
      ∀ j < 2 * m.rows, work.columnVector m.rows j =
        P *ᵥ m.besideIdentity.columnVector m.rows j := hred.equivalent.exists_mul
  have hP : (work.rightHalf m.rows).toMatrix m.rows m.rows = P := by
    ext i j
    rw [toMatrix_rightHalf]
    have hcolumn := congrFun (hcol (m.rows + j) (by omega)) i
    rw [columnVector_besideIdentity, mulVec_single_one] at hcolumn
    exact hcolumn
  rw [hP, ← toMatrix_besideIdentity, ← hmul m.rows hwide]
  exact toMatrix_eq_one hred.shape hred.rows_eq.ge

theorem vectorOf_inverseProduct (system work : DenseMatrix ℚ) :
    vectorOf system.rows (system.inverseProduct work) =
      (work.rightHalf system.rows).toMatrix system.rows system.rows *ᵥ
        system.columnVector system.rows system.rows := by
  funext i
  have hsum := scalarProduct_range ((work.rightHalf system.rows).entry i) system.rhsPart
  rw [length_rhsPart] at hsum
  rw [← vectorOf_rhsPart, mulVec_vectorOf, ← hsum]
  simp [vectorOf, inverseProduct]

/-! ## Candidates and reports -/

/-- Whatever a strategy offers is a solution, and the coefficients are nonsingular. -/
theorem solves_of_candidate {method : Method} {x : List ℚ}
    (h : (system.strategy method).outcome = .ok (.candidate x)) :
    system.Solves x ∧ (system.toMatrix system.rows system.rows).det ≠ 0 := by
  obtain ⟨haug, -⟩ := validate_eq_ok_iff.mp (validate_of_candidate h)
  obtain ⟨-, hshape⟩ := isAugmented_iff.mp haug
  have hwide : system.rows ≤ system.cols := by omega
  cases method with
  | gauss =>
    obtain ⟨-, -, work, hwork, rfl, -⟩ := gauss_eq_candidate h
    have hred := reducing_of_reduce hwide hwork
    constructor
    · exact solves_of_reduce haug hwork (solves_backSubstitute (hred.rows_eq ▸ hred.shape))
    · rw [ne_eq, ← hred.equivalent.det_eq_zero_iff hwide,
        det_toMatrix_eq_one hred.shape hred.rows_eq.ge]
      exact one_ne_zero
  | gaussJordan =>
    obtain ⟨-, -, work, hwork, rfl, -⟩ := gaussJordan_eq_candidate h
    have hred := reducing_of_reduce hwide hwork
    constructor
    · refine solves_of_reduce haug hwork (solves_iff.mpr ⟨work.length_rhsPart, ?_⟩)
      rw [toMatrix_eq_one (hred.rows_eq ▸ hred.shape) le_rfl, one_mulVec, vectorOf_rhsPart]
    · rw [ne_eq, ← hred.equivalent.det_eq_zero_iff hwide,
        toMatrix_eq_one hred.shape hred.rows_eq.ge, det_one]
      exact one_ne_zero
  | inverseMatrix =>
    have hlength := length_of_candidate h
    obtain ⟨-, -, -, work, hwork, rfl, -⟩ := inverseMatrix_eq_product h
    have hinverse := rightHalf_mul hwork
    rw [rows_coefficientPart, toMatrix_coefficientPart] at hinverse
    constructor
    · refine solves_iff.mpr ⟨hlength, ?_⟩
      rw [vectorOf_inverseProduct, mulVec_mulVec, mul_eq_one_comm.mp hinverse, one_mulVec]
    · exact det_ne_zero_of_left_inverse hinverse

end DenseMatrix

/-- A report of a unique solution gives the only solution of the system, with a residual of zero,
and no other method reports another one. -/
theorem only_solution_of_status_eq_unique (system : DenseMatrix ℚ) (method : Method)
    (traced : Bool) (h : (solve system method traced).status = .unique) :
    ∃ x, (solve system method traced).solution = some x ∧
      (solve system method traced).maxResidual = some 0 ∧
      (system.toMatrix system.rows system.rows).det ≠ 0 ∧ system.Solves x ∧
      (∀ y, system.Solves y → y = x) ∧
      ∀ method' traced', (solve system method' traced').status = .unique →
        (solve system method' traced').solution = some x := by
  obtain ⟨x, r, hrun⟩ := solved_of_status_eq_unique h
  obtain ⟨hx, hcheck, -⟩ := DenseMatrix.attempt_eq_solved hrun
  obtain ⟨haug, -⟩ := DenseMatrix.validate_eq_ok_iff.mp (DenseMatrix.validate_of_candidate hx)
  obtain ⟨hsolves, hdet⟩ := DenseMatrix.solves_of_candidate hx
  have hzero : r = 0 := by
    rw [DenseMatrix.check_of_solves haug hsolves] at hcheck
    cases hcheck
    rfl
  have honly : ∀ y, system.Solves y → y = x := fun y hy => hsolves.unique hdet hy
  refine ⟨x, ?_, ?_, hdet, hsolves, honly, fun method' traced' h' => ?_⟩
  · rw [solve_of_solved traced hrun]
  · rw [solve_of_solved traced hrun, hzero]
  · obtain ⟨y, s, hrun'⟩ := solved_of_status_eq_unique h'
    obtain ⟨hy, -, -⟩ := DenseMatrix.attempt_eq_solved hrun'
    rw [solve_of_solved traced' hrun', honly y (DenseMatrix.solves_of_candidate hy).1]

omit [Tolerance] in
theorem only_solution_of_two_equations :
    let _ : Tolerance := .decimal
    let system : DenseMatrix ℚ := ⟨2, 3, #[1, 3, 5, 2, 1, 3], rfl⟩
    (solve system .inverseMatrix true).status = .unique ∧
      ∃ x, (solve system .inverseMatrix true).solution = some x ∧ system.Solves x ∧
        ∀ y, system.Solves y → y = x := by
  intro _ system
  have hunique : (solve system .inverseMatrix true).status = .unique := by decide +kernel
  obtain ⟨x, hx, -, -, hsolves, honly, -⟩ :=
    only_solution_of_status_eq_unique system .inverseMatrix true hunique
  exact ⟨hunique, x, hx, hsolves, honly⟩

end DenseSystem
