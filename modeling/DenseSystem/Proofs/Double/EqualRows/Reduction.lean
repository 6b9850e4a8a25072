import Mathlib.Tactic
import DenseSystem.Proofs.Determinant.Course
import DenseSystem.Proofs.Double.Backward
import DenseSystem.Proofs.Double.SignedZeros

/-! # Equal rows in a reduction

Two equal rows stay equal until one of them is brought up as the pivot row. Then the factor of the
other one is exactly one, the difference is a row of zeros, and such a row never offers a pivot. So
one row too few is left for the columns, whichever pivots are chosen and however the rest is rounded.
-/
namespace DenseSystem.DenseMatrix

variable {α : Type} [Scalar α]

/-- Among the rows from row `first` on, two are the same from column `col` on, or one is zero there. -/
inductive Deficient (work : DenseMatrix α) (first col : ℕ) : Prop
  | twins {r s : ℕ} (hr : first ≤ r) (hs : first ≤ s) (hne : r ≠ s) (hrows : r < work.rows)
      (hrows' : s < work.rows)
      (same : ∀ j, col ≤ j → j < work.cols → SameValue (work.entry r j) (work.entry s j))
  | void {i : ℕ} (hi : first ≤ i) (hrows : i < work.rows)
      (zero : ∀ j, col ≤ j → j < work.cols → Scalar.isZero (work.entry i j) = true)

variable {work m : DenseMatrix α} {first found col p i j : ℕ}

namespace Deficient

theorem lt_rows (h : work.Deficient first col) : first < work.rows := by
  cases h with
  | twins hr hs hne hrows hrows' same => omega
  | void hi hrows zero => omega

theorem mono (h : work.Deficient first col) {later : ℕ} (hle : col ≤ later) :
    work.Deficient first later := by
  cases h with
  | twins hr hs hne hrows hrows' same =>
    exact .twins hr hs hne hrows hrows' fun j hj => same j (hle.trans hj)
  | void hi hrows zero => exact .void hi hrows fun j hj => zero j (hle.trans hj)

end Deficient

/-! ## Where a row goes -/

theorem broughtUp_broughtUp : broughtUp found p (broughtUp found p i) = i := by
  unfold broughtUp
  split_ifs <;> omega

theorem broughtUp_injective : Function.Injective (broughtUp found p) :=
  Function.LeftInverse.injective fun _ => broughtUp_broughtUp

/-- Row `p` has the pivot that column `col` finds, and nothing has overflowed. -/
structure Finds (work : DenseMatrix α) (found col p : ℕ) : Prop where
  found_le : found ≤ p
  lt_rows : p < work.rows
  lt_cols : col < work.cols
  isZero_eq_false : Scalar.isZero (work.entry p col) = false
  finite : work.EntriesFinite

/-- Row `i` is left to the columns after the one that finds its pivot in row `p`. -/
structure Leaves (work : DenseMatrix α) (found p i : ℕ) : Prop where
  found_le : found ≤ i
  lt_rows : i < work.rows
  ne : i ≠ p

omit [Scalar α] in
/-- All rows without a pivot but the one that is brought up stay below it. -/
theorem Leaves.found_lt_broughtUp (hi : work.Leaves found p i) (hfound : found ≤ p) :
    found < broughtUp found p i := by
  obtain ⟨hle, -, hne⟩ := hi
  unfold broughtUp
  split_ifs <;> omega

/-- What becomes of a row without a pivot, wherever it goes. -/
theorem Finds.entry_subtracted_broughtUp (h : work.Finds found col p) (hi : work.Leaves found p i)
    (hright : col ≤ j) (hj : j < work.cols) :
    (work.subtracted found col p).entry (broughtUp found p i) j =
      if Scalar.isZero (work.entry i col / work.entry p col) then work.entry i j
      else work.entry i j - work.entry i col / work.entry p col * work.entry p j := by
  rw [entry_subtracted h.lt_rows h.found_le (broughtUp_lt h.lt_rows h.found_le hi.lt_rows) hj
    h.lt_cols (hi.found_lt_broughtUp h.found_le) hright, factor, broughtUp_broughtUp]

/-! ## One column -/

section Column

variable [SignlessZeros α]

namespace Finds

theorem isNaN_pivot (h : work.Finds found col p) : Scalar.isNaN (work.entry p col) = false :=
  SignlessZeros.isNaN_eq_false (h.finite p h.lt_rows col h.lt_cols) h.isZero_eq_false

/-- Of two equal rows one has the pivot. The other becomes zero. -/
theorem isZero_subtracted_twin (h : work.Finds found col p) (hi : work.Leaves found p i)
    (same : ∀ j, col ≤ j → j < work.cols → SameValue (work.entry i j) (work.entry p j))
    (hright : col ≤ j) (hj : j < work.cols) :
    Scalar.isZero ((work.subtracted found col p).entry (broughtUp found p i) j) = true := by
  have hone : work.entry i col / work.entry p col = 1 := by
    rw [← (same col le_rfl h.lt_cols).symm.eq_of_isZero_eq_false h.isZero_eq_false]
    exact SignlessZeros.div_self (h.finite p h.lt_rows col h.lt_cols) h.isZero_eq_false
  rw [h.entry_subtracted_broughtUp hi hright hj, hone, SignlessZeros.isZero_one,
    if_neg Bool.false_ne_true, SignlessZeros.one_mul]
  exact (same j hright hj).isZero_sub (h.finite i hi.lt_rows j hj)

theorem isZero_subtracted_void (h : work.Finds found col p) (hi : work.Leaves found p i)
    (zero : ∀ j, col ≤ j → j < work.cols → Scalar.isZero (work.entry i j) = true)
    (hright : col ≤ j) (hj : j < work.cols) :
    Scalar.isZero ((work.subtracted found col p).entry (broughtUp found p i) j) = true := by
  have hfactor : Scalar.isZero (work.entry i col / work.entry p col) = true :=
    Cancelling.isZero_div (zero col le_rfl h.lt_cols) h.isNaN_pivot h.isZero_eq_false
  rw [h.entry_subtracted_broughtUp hi hright hj, if_pos hfactor]
  exact zero j hright hj

/-- Equal rows without the pivot have equal factors. -/
theorem sameValue_subtracted {r s : ℕ} (h : work.Finds found col p) (hr : work.Leaves found p r)
    (hs : work.Leaves found p s)
    (same : ∀ j, col ≤ j → j < work.cols → SameValue (work.entry r j) (work.entry s j))
    (hright : col ≤ j) (hj : j < work.cols) :
    SameValue ((work.subtracted found col p).entry (broughtUp found p r) j)
      ((work.subtracted found col p).entry (broughtUp found p s) j) := by
  have hfactor := (same col le_rfl h.lt_cols).div h.isNaN_pivot h.isZero_eq_false
  rw [h.entry_subtracted_broughtUp hr hright hj, h.entry_subtracted_broughtUp hs hright hj,
    hfactor.isZero_eq]
  split_ifs with hzero
  · exact same j hright hj
  · rw [Bool.not_eq_true] at hzero
    rw [hfactor.symm.eq_of_isZero_eq_false hzero]
    exact (same j hright hj).sub (.refl _)

end Finds

/-- A column that finds its pivot leaves one row too few to the columns after it. -/
theorem Deficient.subtracted (h : work.Deficient found col) (hfinds : work.Finds found col p) :
    (work.subtracted found col p).Deficient (found + 1) (col + 1) := by
  have hbelow {i : ℕ} (hi : work.Leaves found p i) : found + 1 ≤ broughtUp found p i :=
    hi.found_lt_broughtUp hfinds.found_le
  have hrow {i : ℕ} (hi : work.Leaves found p i) :
      broughtUp found p i < (work.subtracted found col p).rows :=
    broughtUp_lt hfinds.lt_rows hfinds.found_le hi.lt_rows
  refine Deficient.mono ?_ col.le_succ
  cases h with
  | @twins r s hr hs hne hrows hrows' same =>
    by_cases hrp : r = p
    · subst hrp
      have hleft : work.Leaves found r s := ⟨hs, hrows', hne.symm⟩
      exact .void (hbelow hleft) (hrow hleft) fun j hright hj =>
        hfinds.isZero_subtracted_twin hleft (fun j hright hj => (same j hright hj).symm) hright hj
    by_cases hsp : s = p
    · subst hsp
      have hleft : work.Leaves found s r := ⟨hr, hrows, hne⟩
      exact .void (hbelow hleft) (hrow hleft) fun j hright hj =>
        hfinds.isZero_subtracted_twin hleft same hright hj
    · have hfirst : work.Leaves found p r := ⟨hr, hrows, hrp⟩
      have hsecond : work.Leaves found p s := ⟨hs, hrows', hsp⟩
      exact .twins (hbelow hfirst) (hbelow hsecond) (broughtUp_injective.ne hne) (hrow hfirst)
        (hrow hsecond) fun j hright hj =>
          hfinds.sameValue_subtracted hfirst hsecond same hright hj
  | @void i hi hrows zero =>
    have hne : i ≠ p := by
      rintro rfl
      have hpivot := hfinds.isZero_eq_false
      rw [zero col le_rfl hfinds.lt_cols] at hpivot
      cases hpivot
    have hleft : work.Leaves found p i := ⟨hi, hrows, hne⟩
    exact .void (hbelow hleft) (hrow hleft) fun j hright hj =>
      hfinds.isZero_subtracted_void hleft zero hright hj

end Column

/-! ## Ranks and determinants -/

variable [SignlessZeros α]

/-- As long as nothing overflows, the searched columns never use up all rows. -/
theorem Deficient.rank_lt (h : m.Deficient 0 0)
    (hfinite : ∀ k < m.cols, (m.echelon k).1.EntriesFinite) : m.rank < m.rows := by
  have hend := echelon_invariant (P := fun k work found => work.Deficient found k) (n := m.cols) h
    (fun k _ hwork _ => hwork.mono k.le_succ)
    (fun k hk p hwork hp => by
      obtain ⟨hfound, hlt, hnear⟩ := nonzeroRow?_spec hp
      obtain ⟨-, hcols, -, -⟩ := m.shape_echelon k
      exact hwork.subtracted
        ⟨hfound, hlt, hcols ▸ hk, Cancelling.isZero_eq_false hnear, hfinite k hk⟩)
    m.cols le_rfl
  obtain ⟨hrows, -, -, -⟩ := m.shape_echelon m.cols
  rw [rank_eq_echelon, ← hrows]
  exact hend.lt_rows

/-- As long as nothing overflows, some column offers no pivot to a determinant. -/
theorem Deficient.determinantFrom_eq_zero {k left : ℕ} {det : α} (h : work.Deficient k k)
    (hfinite : ∀ k < m.rows, ∀ state ∈ m.determinantUpTo k, state.1.EntriesFinite)
    (hreach : m.determinantUpTo k = some (work, det)) (hrows : k + left = m.rows)
    (hcols : m.rows ≤ m.cols) : work.determinantFrom det k left = 0 := by
  obtain ⟨hsame, hsame'⟩ := shape_determinantUpTo hreach
  induction left generalizing k work det with
  | zero =>
    have hlt := h.lt_rows
    omega
  | succ left ih =>
    have hk : k < work.rows := by omega
    have hstep := determinantStep_eq work det k
    rw [determinantFrom_succ]
    cases hnear : isNearZero (work.pivot k) with
    | true => rfl
    | false =>
      rw [hnear] at hstep
      have hreach' : m.determinantUpTo (k + 1) = some (work.subtracted k k (work.pivotRow k k),
          (if work.pivotRow k k = k then det else -det) * work.pivot k) := by
        rw [determinantUpTo, hreach]
        exact hstep
      have hfinds : work.Finds k k (work.pivotRow k k) :=
        ⟨work.le_pivotRow k k, work.pivotRow_lt k hk, by omega, Cancelling.isZero_eq_false hnear,
          hfinite k (by omega) _ hreach⟩
      exact ih (h.subtracted hfinds) hreach' (by omega) hsame hsame'

theorem Deficient.determinant_eq_zero (h : m.Deficient 0 0) (hsquare : m.isSquare = true)
    (hfinite : ∀ k < m.rows, ∀ state ∈ m.determinantUpTo k, state.1.EntriesFinite) :
    m.determinant = .ok 0 := by
  rw [determinant_of_isSquare hsquare]
  exact congrArg _ (h.determinantFrom_eq_zero hfinite rfl (Nat.zero_add m.rows)
    (rows_eq_cols_of_isSquare hsquare).le)

end DenseSystem.DenseMatrix
