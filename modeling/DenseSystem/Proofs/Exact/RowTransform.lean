import Mathlib
import DenseSystem.Elimination
import DenseSystem.Proofs.Exact.Arithmetic

/-! # Row operations as matrix products

Over the rationals each step of an elimination multiplies the working matrix from the left by a
square matrix whose determinant is known: minus one for an exchange, the inverse of the pivot for
its row, and one for all that is subtracted. The rows that act must vanish in the columns that are
done, because the steps leave those columns alone.
-/
namespace DenseSystem.DenseMatrix

open Matrix

variable [Tolerance]

/-- The top left `r x c` part as a matrix of the mathematical library. -/
def toMatrix (m : DenseMatrix ℚ) (r c : ℕ) : Matrix (Fin r) (Fin c) ℚ :=
  Matrix.of fun i j => m.entry i j

def columnVector (m : DenseMatrix ℚ) (n j : ℕ) : Fin n → ℚ := fun i => m.entry i j

@[simp] theorem toMatrix_apply (m : DenseMatrix ℚ) (r c : ℕ) (i : Fin r) (j : Fin c) :
    m.toMatrix r c i j = m.entry i j := rfl

/-- `after` is `before` multiplied from the left by an `n x n` matrix with determinant `d`. -/
def Transforms (n : ℕ) (d : ℚ) (before after : DenseMatrix ℚ) : Prop :=
  after.cols = before.cols ∧ ∃ P : Matrix (Fin n) (Fin n) ℚ, P.det = d ∧
    ∀ j < before.cols, after.columnVector n j = P *ᵥ before.columnVector n j

namespace Transforms

variable {n : ℕ} {d e : ℚ} {a b c : DenseMatrix ℚ}

theorem refl (n : ℕ) (a : DenseMatrix ℚ) : Transforms n 1 a a :=
  ⟨rfl, 1, det_one, fun _ _ => (one_mulVec _).symm⟩

theorem trans (hab : Transforms n d a b) (hbc : Transforms n e b c) :
    Transforms n (e * d) a c := by
  obtain ⟨hcols, P, hP, hPcol⟩ := hab
  obtain ⟨hcols', Q, hQ, hQcol⟩ := hbc
  refine ⟨hcols'.trans hcols, Q * P, by rw [det_mul, hQ, hP], fun j hj => ?_⟩
  rw [hQcol j (hcols ▸ hj), hPcol j hj, mulVec_mulVec]

/-- The same matrix acts on all columns, and so on every block of leading columns. -/
theorem exists_mul (h : Transforms n d a b) :
    ∃ P : Matrix (Fin n) (Fin n) ℚ, P.det = d ∧
      (∀ k ≤ a.cols, b.toMatrix n k = P * a.toMatrix n k) ∧
      ∀ j < a.cols, b.columnVector n j = P *ᵥ a.columnVector n j := by
  obtain ⟨-, P, hP, hcol⟩ := h
  refine ⟨P, hP, fun k hk => ?_, hcol⟩
  ext i j
  exact congrFun (hcol j (by omega)) i

theorem det_eq (h : Transforms n d a b) (hn : n ≤ a.cols) :
    (b.toMatrix n n).det = d * (a.toMatrix n n).det := by
  obtain ⟨P, hP, hmul, -⟩ := h.exists_mul
  rw [hmul n hn, det_mul, hP]

theorem rank_eq (h : Transforms n d a b) (hd : d ≠ 0) {k : ℕ} (hk : k ≤ a.cols) :
    (b.toMatrix n k).rank = (a.toMatrix n k).rank := by
  obtain ⟨P, hP, hmul, -⟩ := h.exists_mul
  rw [hmul k hk]
  exact rank_mul_eq_right_of_det_ne_zero _ _ (hP ▸ hd)

end Transforms

variable {m : DenseMatrix ℚ} {k : ℕ}

theorem transforms_exchangeRows {p : ℕ} (hk : k < m.rows) (hp : p < m.rows) :
    Transforms m.rows (if p = k then 1 else -1) m (m.exchangeRows k p) := by
  let σ : Equiv.Perm (Fin m.rows) := Equiv.swap ⟨k, hk⟩ ⟨p, hp⟩
  refine ⟨rfl, σ.permMatrix ℚ, ?_, fun j hj => ?_⟩
  · rw [det_permutation]
    split_ifs with h
    · subst h
      simp [σ]
    · rw [Equiv.Perm.sign_swap (by simpa [Fin.ext_iff] using Ne.symm h)]
      simp
  · rw [permMatrix_mulVec]
    funext i
    change (m.exchangeRows k p).entry i j = m.entry (σ i) j
    rw [entry_exchangeRows m k p i.isLt hj]
    congr 1
    simp only [σ, Equiv.swap_apply_def, Fin.ext_iff]
    split_ifs <;> rfl

theorem transforms_normalizeRow {p : ℚ} (hk : k < m.rows) (hp : p ≠ 0)
    (hdiag : m.entry k k = p) (hleft : ∀ j < k, m.entry k j = 0) :
    Transforms m.rows p⁻¹ m (m.normalizeRow k p) := by
  refine ⟨rfl, diagonal (Function.update 1 ⟨k, hk⟩ p⁻¹), ?_, fun j hj => ?_⟩
  · rw [det_diagonal, Finset.prod_update_of_mem (Finset.mem_univ _)]
    simp
  · funext i
    rw [mulVec_diagonal]
    change (m.normalizeRow k p).entry i j = _
    rw [entry_normalizeRow m k p i.isLt hj]
    by_cases hi : (i : ℕ) = k
    · have hik : i = ⟨k, hk⟩ := Fin.ext hi
      subst hik
      rw [Function.update_self]
      rcases lt_trichotomy j k with hjk | rfl | hjk
      · rw [if_pos (Or.inr hjk)]
        simp [columnVector, hleft j hjk]
      · rw [if_neg (by omega), if_pos rfl]
        exact ((congrArg (p⁻¹ * ·) hdiag).trans (inv_mul_cancel₀ hp)).symm
      · rw [if_neg (by omega), if_neg (by omega)]
        exact div_eq_inv_mul _ _
    · rw [if_pos (Or.inl hi), Function.update_of_ne (by simpa [Fin.ext_iff] using hi)]
      exact (one_mul _).symm

/-- The matrix that subtracts multiples of row `k` from the other rows. -/
def shear {n : ℕ} (k : Fin n) (v : Fin n → ℚ) : Matrix (Fin n) (Fin n) ℚ :=
  1 - vecMulVec v (Pi.single k 1)

theorem det_shear {n : ℕ} {k : Fin n} {v : Fin n → ℚ} (hv : v k = 0) : (shear k v).det = 1 := by
  have hneg : shear k v =
      1 + replicateCol Unit (-v) * replicateRow Unit (Pi.single k (1 : ℚ)) := by
    rw [shear, sub_eq_add_neg, ← vecMulVec_eq Unit, neg_vecMulVec]
  rw [hneg, det_one_add_replicateCol_mul_replicateRow]
  simp [hv]

theorem shear_mulVec {n : ℕ} (k : Fin n) (v x : Fin n → ℚ) (i : Fin n) :
    (shear k v *ᵥ x) i = x i - v i * x k := by
  rw [shear, sub_mulVec, one_mulVec, vecMulVec_mulVec]
  simp [mul_comm]

theorem transforms_clearColumn {sweep : Sweep} (hk : k < m.rows) (hdiag : m.entry k k = 1)
    (hleft : ∀ j < k, m.entry k j = 0) : Transforms m.rows 1 m (m.clearColumn k sweep) := by
  let v : Fin m.rows → ℚ := fun i => if m.isTarget k sweep i then m.entry i k else 0
  have hv : v ⟨k, hk⟩ = 0 := by
    have hself : m.isTarget k sweep k = false := by cases sweep <;> simp [isTarget, Sweep.reaches]
    simp [v, hself]
  refine ⟨rfl, shear ⟨k, hk⟩ v, det_shear hv, fun j hj => ?_⟩
  funext i
  rw [shear_mulVec]
  change (m.clearColumn k sweep).entry i j = m.entry i j - v i * m.entry k j
  rw [entry_clearColumn m k sweep i.isLt hj]
  cases ht : m.isTarget k sweep i with
  | false => simp [v, ht]
  | true =>
    simp only [v, ht, if_true, Bool.not_true, Bool.false_or, decide_eq_true_eq]
    rcases lt_trichotomy j k with hjk | rfl | hjk
    · rw [if_pos hjk, hleft j hjk, mul_zero, sub_zero]
    · rw [if_neg (lt_irrefl j), if_pos rfl, hdiag, mul_one, sub_self]
    · rw [if_neg (by omega), if_neg (by omega)]

/-- The multiples of row `r` that are subtracted from the rows below it, zero for the others. -/
def factorsBelow (m : DenseMatrix ℚ) (n r k : ℕ) : Fin n → ℚ :=
  fun i => if i ≤ r then 0 else m.entry i k / m.entry r k

theorem det_shear_factorsBelow (m : DenseMatrix ℚ) (k : ℕ) {n r : ℕ} (hr : r < n) :
    (shear ⟨r, hr⟩ (m.factorsBelow n r k)).det = 1 :=
  det_shear (if_pos le_rfl)

/-- A column from `k` on, or one that vanishes in the row that acts, is sheared as a whole. -/
theorem columnVector_subtractBelow {n r j : ℕ} (hn : m.rows = n) (hr : r < n) (hj : j < m.cols)
    (hdone : k ≤ j ∨ m.entry r j = 0) :
    (m.subtractBelow r k).columnVector n j =
      shear ⟨r, hr⟩ (m.factorsBelow n r k) *ᵥ m.columnVector n j := by
  funext i
  rw [shear_mulVec]
  change (m.subtractBelow r k).entry i j = m.entry i j - m.factorsBelow n r k i * m.entry r j
  rw [entry_subtractBelow m r k (hn ▸ i.isLt) hj]
  simp only [factorsBelow]
  by_cases hi : (i : ℕ) ≤ r
  · rw [if_pos (Or.inl hi), if_pos hi, zero_mul, sub_zero]
  · rw [if_neg hi]
    by_cases hjk : j < k
    · rw [if_pos (Or.inr (Or.inl hjk)), hdone.resolve_left (not_le.mpr hjk), mul_zero, sub_zero]
    · by_cases hz : Scalar.isZero (m.entry i k / m.entry r k) = true
      · have hfactor : m.entry i k / m.entry r k = 0 := Exact.isZero_iff.mp hz
        rw [if_pos (Or.inr (Or.inr hz)), hfactor, zero_mul, sub_zero]
      · rw [if_neg (by simp [hi, hjk, hz])]

theorem transforms_subtractBelow {r : ℕ} (hr : r < m.rows)
    (hleft : ∀ j < k, m.entry r j = 0) : Transforms m.rows 1 m (m.subtractBelow r k) :=
  ⟨rfl, _, det_shear_factorsBelow m k hr, fun _ hj =>
    columnVector_subtractBelow rfl hr hj ((le_or_gt k _).imp id (hleft _))⟩

end DenseSystem.DenseMatrix
