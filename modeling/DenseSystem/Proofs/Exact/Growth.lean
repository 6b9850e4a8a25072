import Mathlib
import DenseSystem.Proofs.Elimination.Reached
import DenseSystem.Proofs.Exact.SignedPivots

/-! # Growth of entries

A pivot is the largest magnitude of its column from the diagonal on, so a row below loses at most
one whole pivot row. In the rows that have no pivot yet, magnitudes at most double with each column.
The pivots are among them, and the determinant is their product up to the sign.
-/
namespace DenseSystem

variable [Tolerance]

namespace DenseMatrix

variable {m work : DenseMatrix ℚ} {k i j : ℕ} {bound det : ℚ}

def BoundedFrom (first : ℕ) (bound : ℚ) (m : DenseMatrix ℚ) : Prop :=
  ∀ i, first ≤ i → i < m.rows → ∀ j < m.cols, |m.entry i j| ≤ bound

theorem BoundedFrom.nonneg {first : ℕ} (h : BoundedFrom first bound m) (hrow : first < m.rows)
    (hcol : 0 < m.cols) : 0 ≤ bound :=
  (abs_nonneg _).trans (h first le_rfl hrow 0 hcol)

/-! ## One column -/

/-- No candidate is a larger multiple of the pivot than the pivot itself. -/
theorem abs_entry_div_pivot_le (hki : k ≤ i) (hi : i < work.rows) :
    |work.entry i k / work.pivot k| ≤ 1 := by
  have hle : |work.entry i k| ≤ |work.pivot k| := work.abs_entry_le_pivotRow k hki hi
  rw [abs_div]
  exact div_le_one_of_le₀ hle (abs_nonneg _)

theorem abs_factor_le (hk : k < work.rows) (hki : k ≤ i) (hi : i < work.rows) :
    |work.factor k k (work.pivotRow k k) i| ≤ 1 := by
  have hsource := work.le_sourceRow hki
  have hlt := work.sourceRow_lt hk hi
  rw [factor, broughtUp_pivotRow]
  exact abs_entry_div_pivot_le hsource hlt

/-- A row below the pivot loses a part of the pivot row. -/
theorem BoundedFrom.reduced (h : BoundedFrom k bound work) (hk : k < work.rows)
    (hkc : k < work.cols) (sweep : Sweep) :
    BoundedFrom (k + 1) (2 * bound) (work.reduced k sweep) := by
  intro i hki (hi : i < work.rows) j (hj : j < work.cols)
  have hsource := work.le_sourceRow (by omega : k ≤ i)
  have hlt := work.sourceRow_lt hk hi
  have hbound := h.nonneg hk (by omega)
  have hkept : |work.entry (work.sourceRow k i) j| ≤ bound := h _ hsource hlt j hj
  have hpivot : |work.entry (work.pivotRow k k) j| ≤ bound :=
    h _ (work.le_pivotRow k k) (work.pivotRow_lt k hk) j hj
  rw [entry_reduced_below sweep hk hkc hki hi hj]
  split_ifs
  · linarith
  · rw [abs_zero]
    linarith
  · have hfactor := abs_entry_div_pivot_le hsource hlt
    calc |work.entry (work.sourceRow k i) j - work.entry (work.sourceRow k i) k *
            (work.entry (work.pivotRow k k) j / work.pivot k)|
        = |work.entry (work.sourceRow k i) j - work.entry (work.sourceRow k i) k /
            work.pivot k * work.entry (work.pivotRow k k) j| := by
          rw [mul_div_assoc', div_mul_eq_mul_div]
      _ ≤ |work.entry (work.sourceRow k i) j| + |work.entry (work.sourceRow k i) k /
            work.pivot k| * |work.entry (work.pivotRow k k) j| := by
          rw [← abs_mul]
          exact abs_sub _ _
      _ ≤ bound + 1 * bound :=
          add_le_add hkept (mul_le_mul hfactor hpivot (abs_nonneg _) zero_le_one)
      _ = 2 * bound := by ring

/-- The elimination of a determinant has the same rows below its pivots. -/
theorem BoundedFrom.subtracted (h : BoundedFrom k bound work) (hk : k < work.rows)
    (hkc : k < work.cols) (hp : isNearZero (work.pivot k) = false) :
    BoundedFrom (k + 1) (2 * bound) (work.subtracted k k (work.pivotRow k k)) := by
  intro i hki (hi : i < work.rows) j (hj : j < work.cols)
  rw [entry_subtracted_eq_reduced .below hk hkc hp hki hi hj]
  exact h.reduced hk hkc .below i hki hi j hj

/-! ## All columns -/

theorem Reaches.boundedFrom {sweep : Sweep} (h : m.Reaches sweep k work) (hk : k ≤ m.rows)
    (hshape : m.rows ≤ m.cols) (hm : BoundedFrom 0 bound m) :
    BoundedFrom k (2 ^ k * bound) work := by
  have hstart : BoundedFrom 0 (2 ^ 0 * bound) m := by rwa [pow_zero, one_mul]
  have hend := h.invariant
    (P := fun k work => work.rows ≤ work.cols ∧ BoundedFrom k (2 ^ k * bound) work)
    (fun k work hwork hk _ => by
      have hnext := hwork.2.reduced hk (hk.trans_le hwork.1) sweep
      rw [← mul_assoc, ← pow_succ'] at hnext
      exact ⟨hwork.1, hnext⟩) hk ⟨hshape, hstart⟩
  exact hend.2

/-- Before each column of a determinant the entries are bounded, and so is the product so far. -/
theorem bounded_determinantUpTo (hshape : m.rows ≤ m.cols) (hm : BoundedFrom 0 bound m)
    (h : m.determinantUpTo k = some (work, det)) (hk : k ≤ m.rows) :
    BoundedFrom k (2 ^ k * bound) work ∧ |det| ≤ ∏ j ∈ Finset.range k, 2 ^ j * bound := by
  induction k generalizing work det with
  | zero =>
    cases h
    rw [pow_zero, one_mul]
    exact ⟨hm, by simp⟩
  | succ k ih =>
    obtain ⟨⟨before, det'⟩, hbefore, hstep⟩ := Option.bind_eq_some_iff.mp h
    obtain ⟨hrows, hcols⟩ := shape_determinantUpTo hbefore
    obtain ⟨hbound, hdet⟩ := ih hbefore (by omega)
    rw [determinantStep_eq] at hstep
    split at hstep
    · cases hstep
    · next hp =>
      cases hstep
      have hkb : k < before.rows := by omega
      have hkc : k < before.cols := by omega
      have hnext := hbound.subtracted hkb hkc (by simpa using hp)
      rw [← mul_assoc, ← pow_succ'] at hnext
      refine ⟨hnext, ?_⟩
      have hpivot : |before.pivot k| ≤ 2 ^ k * bound :=
        hbound _ (before.le_pivotRow k k) (before.pivotRow_lt k hkb) k hkc
      have hsign : |if before.pivotRow k k = k then det' else -det'| = |det'| := by
        split_ifs
        · rfl
        · exact abs_neg det'
      rw [abs_mul, hsign, Finset.prod_range_succ]
      exact mul_le_mul hdet hpivot (abs_nonneg _) ((abs_nonneg _).trans hdet)

end DenseMatrix

/-- Entries of magnitude at most `bound` grow to at most `2 ^ k * bound` in the rows from `k` on
once `k` columns are done, in both sweeps and in the elimination of a determinant, whose factors are
at most one. So a determinant is at most the product of these bounds. -/
theorem growth_of_partial_pivoting (m : DenseMatrix ℚ) (bound : ℚ) (hshape : m.rows ≤ m.cols)
    (hm : ∀ i < m.rows, ∀ j < m.cols, |m.entry i j| ≤ bound) :
    (∀ k ≤ m.rows, ∀ sweep work, m.Reaches sweep k work → work.BoundedFrom k (2 ^ k * bound)) ∧
      (∀ k ≤ m.rows, ∀ work det, m.determinantUpTo k = some (work, det) →
        work.BoundedFrom k (2 ^ k * bound) ∧
          ∀ i, k < i → i < work.rows → |work.factor k k (work.pivotRow k k) i| ≤ 1) ∧
      (m.isSquare = true → ∃ det, m.determinant = .ok det ∧
        |det| ≤ ∏ k ∈ Finset.range m.rows, 2 ^ k * bound) := by
  have hstart : m.BoundedFrom 0 bound := fun i _ => hm i
  refine ⟨fun k hk sweep work hreach => hreach.boundedFrom hk hshape hstart,
    fun k hk work det hreach => ?_, fun hsquare => ?_⟩
  · exact ⟨(DenseMatrix.bounded_determinantUpTo hshape hstart hreach hk).1,
      fun i hki hi => DenseMatrix.abs_factor_le (hki.trans hi) hki.le hi⟩
  · refine ⟨_, DenseMatrix.determinant_of_isSquare hsquare, ?_⟩
    cases hend : m.determinantUpTo m.rows with
    | none =>
      have hzero := DenseMatrix.determinantFrom_of_stuck hend 0
      rw [Nat.add_zero] at hzero
      rw [hzero, abs_zero]
      refine Finset.prod_nonneg fun k hk => mul_nonneg (by positivity) ?_
      have hrows : 0 < m.rows := Nat.zero_lt_of_lt (Finset.mem_range.mp hk)
      exact hstart.nonneg hrows (hrows.trans_le hshape)
    | some state =>
      have hdet := DenseMatrix.determinantFrom_of_determinantUpTo hend 0
      rw [Nat.add_zero] at hdet
      rw [hdet]
      exact (DenseMatrix.bounded_determinantUpTo hshape hstart hend le_rfl).2

omit [Tolerance] in
/-- The last pivot is as large as it can get, and the determinant less than its bound. -/
theorem growth_of_three_rows :
    let _ : Tolerance := .decimal
    let m : DenseMatrix ℚ := ⟨3, 3, #[1, 0, 1, -1, 1, 1, -1, -1, 1], rfl⟩
    m.rows ≤ m.cols ∧ (∀ i < m.rows, ∀ j < m.cols, |m.entry i j| ≤ 1) ∧
      (∃ work, m.Reaches .below 2 work ∧ work.entry 2 2 = 2 ^ 2 * 1 ∧
        work.BoundedFrom 2 (2 ^ 2 * 1)) ∧
      ∃ det, m.determinant = .ok det ∧ |det| ≤ ∏ k ∈ Finset.range 3, 2 ^ k * 1 := by
  intro _ m
  have hm : ∀ i < m.rows, ∀ j < m.cols, |m.entry i j| ≤ 1 := by decide +kernel
  obtain ⟨hreaches, -, hdet⟩ := growth_of_partial_pivoting m 1 le_rfl hm
  have hreach : m.Reaches .below 2 (m.reducedTo .below 2) :=
    ((m.reaches_zero .below).next (by decide +kernel)).next (by decide +kernel)
  have hpivot : (m.reducedTo .below 2).entry 2 2 = 2 ^ 2 * 1 := by decide +kernel
  exact ⟨le_rfl, hm, ⟨_, hreach, hpivot, hreaches 2 (by decide) .below _ hreach⟩, hdet rfl⟩

end DenseSystem
