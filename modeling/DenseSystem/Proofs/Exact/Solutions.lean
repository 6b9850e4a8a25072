import Mathlib
import DenseSystem.Proofs.Solver.Candidate
import DenseSystem.Proofs.Exact.Reduction

/-! # Solutions of exact systems

A list solves a system when it has an entry for each unknown and satisfies every equation. Over the
rationals this says that all residuals vanish, and it can be read as an equation of matrices.
-/
namespace DenseSystem

open Matrix

variable [Tolerance]

theorem scalarProduct_range' (f : ℕ → ℚ) (start : ℕ) (x : List ℚ) :
    scalarProduct ((List.range' start x.length).map f) x =
      ∑ c ∈ Finset.range x.length, f (start + c) * x.getD c 0 := by
  rw [scalarProduct, Exact.sum_eq]
  induction x generalizing start with
  | nil => rfl
  | cons a x ih =>
    rw [List.length_cons, List.range'_succ, List.map_cons, List.zipWith_cons_cons, List.sum_cons,
      ih, Finset.sum_range_succ']
    simp only [List.getD_cons_succ, List.getD_cons_zero, Nat.add_zero]
    rw [add_comm]
    congr 1
    apply Finset.sum_congr rfl
    intro c _
    rw [show start + 1 + c = start + (c + 1) by omega]

theorem scalarProduct_range (f : ℕ → ℚ) (x : List ℚ) :
    scalarProduct ((List.range x.length).map f) x =
      ∑ c ∈ Finset.range x.length, f c * x.getD c 0 := by
  rw [List.range_eq_range', scalarProduct_range']
  simp only [Nat.zero_add]

def vectorOf (n : ℕ) (x : List ℚ) : Fin n → ℚ := fun i => x.getD i 0

omit [Tolerance] in
theorem vectorOf_ofFn {n : ℕ} (v : Fin n → ℚ) : vectorOf n (List.ofFn v) = v := by
  funext i
  simp [vectorOf]

omit [Tolerance] in
theorem eq_of_vectorOf_eq {n : ℕ} {x y : List ℚ} (hx : x.length = n) (hy : y.length = n)
    (h : vectorOf n x = vectorOf n y) : x = y := by
  apply List.ext_getElem (hx.trans hy.symm)
  intro i hi hi'
  have := congrFun h ⟨i, hx ▸ hi⟩
  simpa [vectorOf, hi, hi'] using this

namespace DenseMatrix

/-- The list has an entry for each unknown and satisfies every equation. -/
def Solves (system : DenseMatrix ℚ) (x : List ℚ) : Prop :=
  x.length = system.rows ∧ ∀ i < system.rows,
    ∑ j ∈ Finset.range system.rows, system.entry i j * x.getD j 0 = system.entry i system.rows

theorem mulVec_vectorOf (m : DenseMatrix ℚ) {n : ℕ} (x : List ℚ) (i : Fin n) :
    (m.toMatrix n n *ᵥ vectorOf n x) i = ∑ j ∈ Finset.range n, m.entry i j * x.getD j 0 := by
  rw [mulVec, dotProduct, Finset.sum_range]
  rfl

theorem solves_iff {system : DenseMatrix ℚ} {x : List ℚ} : system.Solves x ↔
    x.length = system.rows ∧ system.toMatrix system.rows system.rows *ᵥ vectorOf system.rows x =
      system.columnVector system.rows system.rows := by
  apply and_congr_right
  intro _
  constructor
  · intro h
    funext i
    rw [mulVec_vectorOf]
    exact h i i.isLt
  · intro h i hi
    have hrow := congrFun h ⟨i, hi⟩
    rw [mulVec_vectorOf] at hrow
    exact hrow

theorem toMatrix_coefficientPart (system : DenseMatrix ℚ) :
    system.coefficientPart.toMatrix system.rows system.rows =
      system.toMatrix system.rows system.rows := by
  ext i j
  exact system.entry_coefficientPart i.isLt j.isLt

theorem residualAt_eq_zero {system : DenseMatrix ℚ} {x : List ℚ} (h : system.Solves x) {i : ℕ}
    (hi : i < system.rows) : system.residualAt x i = 0 := by
  obtain ⟨hlength, hrow⟩ := h
  have hsum := scalarProduct_range (system.entry i) x
  rw [hlength] at hsum
  rw [residualAt, hsum]
  exact sub_eq_zero_of_eq (hrow i hi)

theorem worstResidual_eq_zero {rs : List ℚ} (h : ∀ r ∈ rs, r = 0) : worstResidual 0 rs = 0 := by
  induction rs with
  | nil => rfl
  | cons r rs ih =>
    rw [List.forall_mem_cons] at h
    have hstep : worstResidual 0 (r :: rs) = worstResidual 0 rs := by
      rw [h.1]
      rfl
    rw [hstep, ih h.2]

theorem check_eq_ok {system : DenseMatrix ℚ} {x : List ℚ} (haug : system.isAugmented = true)
    (hlength : x.length = system.rows) :
    (system.check x).outcome =
      .ok (worstResidual 0 ((List.range system.rows).map (system.residualAt x))) := by
  rw [check_of_isFinite haug hlength (Exact.all_isFinite x) fun i _ => Exact.isFinite_eq_true _]

theorem check_of_solves {system : DenseMatrix ℚ} {x : List ℚ} (haug : system.isAugmented = true)
    (h : system.Solves x) : (system.check x).outcome = .ok 0 := by
  rw [check_eq_ok haug h.1, worstResidual_eq_zero]
  rw [List.forall_mem_map]
  exact fun i hi => residualAt_eq_zero h (List.mem_range.mp hi)

/-- With a nonsingular coefficient matrix there is no second solution. -/
theorem Solves.unique {system : DenseMatrix ℚ} {x y : List ℚ}
    (hdet : (system.toMatrix system.rows system.rows).det ≠ 0) (hx : system.Solves x)
    (hy : system.Solves y) : y = x := by
  obtain ⟨hxlength, hx⟩ := solves_iff.mp hx
  obtain ⟨hylength, hy⟩ := solves_iff.mp hy
  have hinj := mulVec_injective_of_isUnit ((isUnit_iff_isUnit_det _).mpr hdet.isUnit)
  exact eq_of_vectorOf_eq hylength hxlength (hinj (hy.trans hx.symm))

end DenseMatrix

end DenseSystem
