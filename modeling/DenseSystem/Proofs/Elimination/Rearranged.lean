import Mathlib
import DenseSystem.Proofs.Double.Order
import DenseSystem.Proofs.Elimination.Reached

/-! # Equations in another order

Two matrices with the same rows in different orders are reduced alike, as long as in each column one
entry is larger than all the others that could be the pivot. Rows that have had their turn are then
the same in both, and those that have not are still the same up to their order, though the row that
is brought up may come from different places. No law of arithmetic takes part in this.
-/
namespace DenseSystem.DenseMatrix

variable {α : Type} [Scalar α]

def permuteRows (m : DenseMatrix α) (σ : Equiv.Perm (Fin m.rows)) : DenseMatrix α :=
  ofFn m.rows m.cols fun i j => if h : i < m.rows then m.entry (σ ⟨i, h⟩) j else 0

/-- Row `p` holds the one largest magnitude of column `k` among the rows from `k` on. -/
structure Leads (work : DenseMatrix α) (k p : ℕ) : Prop where
  le : k ≤ p
  lt_rows : p < work.rows
  larger : ∀ i < work.rows, k ≤ i → i ≠ p →
    Scalar.lt (Scalar.abs (work.entry i k)) (Scalar.abs (work.entry p k)) = true

/-- Which row holds the pivot of column `k` does not depend on the order of the rows, or the column
has no pivot in any order. -/
def Undisputed (work : DenseMatrix α) (k : ℕ) : Prop :=
  (∃ p < work.rows, work.Leads k p) ∨
    ∀ i < work.rows, k ≤ i → isNearZero (work.entry i k) = true

instance (work : DenseMatrix α) (k p : ℕ) : Decidable (work.Leads k p) :=
  decidable_of_iff (k ≤ p ∧ p < work.rows ∧ ∀ i < work.rows, k ≤ i → i ≠ p →
      Scalar.lt (Scalar.abs (work.entry i k)) (Scalar.abs (work.entry p k)) = true)
    ⟨fun ⟨hle, hlt, hlarger⟩ => ⟨hle, hlt, hlarger⟩, fun h => ⟨h.le, h.lt_rows, h.larger⟩⟩

instance (work : DenseMatrix α) (k : ℕ) : Decidable (work.Undisputed k) :=
  inferInstanceAs (Decidable (_ ∨ _))

/-- `b` has the rows of `a` in another order, except for those before row `k`, which are the same. -/
structure Rearranged (k : ℕ) (σ : Equiv.Perm ℕ) (a b : DenseMatrix α) : Prop where
  rows_eq : b.rows = a.rows
  cols_eq : b.cols = a.cols
  done : ∀ i < k, σ i = i
  outside : ∀ i, a.rows ≤ i → σ i = i
  entry_eq : ∀ i < a.rows, ∀ j < a.cols, b.entry i j = a.entry (σ i) j

variable {a b work : DenseMatrix α} {k p : ℕ} {σ : Equiv.Perm ℕ} {sweep : Sweep}

/-! ## The search -/

/-- The leading row is found: it takes the place of every row before it and gives way to none. -/
theorem Leads.pivotRow_eq [OrderedMagnitudes α] (h : work.Leads k p) : work.pivotRow k k = p := by
  refine (work.pivotRow_invariant (P := fun last best => k ≤ best ∧ best < last ∧
    (p < last → best = p)) k (h.le.trans_lt h.lt_rows) ?_ ?_).2.2 h.lt_rows
  · exact ⟨le_rfl, Nat.lt_succ_self k, fun hp => by have := h.le; omega⟩
  · rintro best last hlast hrows ⟨hle, hlt, hfound⟩
    rcases lt_trichotomy last p with hbefore | rfl | hafter
    · unfold better
      split_ifs <;> omega
    · have hbetter := h.larger best (hlt.trans hrows) hle hlt.ne
      rw [better, if_pos hbetter]
      omega
    · obtain rfl := hfound hafter
      have hworse := OrderedMagnitudes.lt_asymm (h.larger last hrows hlast.le hafter.ne')
      rw [better, if_neg (Bool.eq_false_iff.mp hworse)]
      omega

theorem isNearZero_pivot (hk : k < work.rows)
    (h : ∀ i < work.rows, k ≤ i → isNearZero (work.entry i k) = true) :
    isNearZero (work.pivot k) = true :=
  h _ (work.pivotRow_lt k hk) (work.le_pivotRow k k)

/-! ## Rows in another order -/

namespace Rearranged

theorem le_apply_iff (h : Rearranged k σ a b) {i : ℕ} : k ≤ σ i ↔ k ≤ i := by
  rw [← not_lt, ← not_lt, not_iff_not]
  constructor
  · intro hi
    exact σ.injective (h.done _ hi) ▸ hi
  · intro hi
    rwa [h.done i hi]

theorem apply_lt_iff (h : Rearranged k σ a b) {i : ℕ} : σ i < a.rows ↔ i < a.rows := by
  rw [← not_le, ← not_le, not_iff_not]
  constructor
  · intro hi
    exact σ.injective (h.outside _ hi) ▸ hi
  · intro hi
    rwa [h.outside i hi]

theorem eq (h : Rearranged k σ a b) (hk : a.rows ≤ k) : b = a := by
  refine ext_entry h.rows_eq h.cols_eq fun i hi j hj => ?_
  rw [h.rows_eq] at hi
  rw [h.cols_eq] at hj
  rw [h.entry_eq i hi j hj, h.done i (hi.trans_le hk)]

theorem entry_symm (h : Rearranged k σ a b) {i j : ℕ} (hi : i < a.rows) (hj : j < a.cols) :
    b.entry (σ.symm i) j = a.entry i j := by
  have hsymm : σ.symm i < a.rows := by
    rwa [← h.apply_lt_iff, Equiv.apply_symm_apply]
  rw [h.entry_eq _ hsymm j hj, Equiv.apply_symm_apply]

theorem leads (h : Rearranged k σ a b) (hk : k < a.cols) (hp : a.Leads k p) :
    b.Leads k (σ.symm p) where
  le := by rw [← h.le_apply_iff, Equiv.apply_symm_apply]; exact hp.le
  lt_rows := by rw [h.rows_eq, ← h.apply_lt_iff, Equiv.apply_symm_apply]; exact hp.lt_rows
  larger i hrows hi hne := by
    rw [h.rows_eq] at hrows
    rw [h.entry_symm hp.lt_rows hk, h.entry_eq i hrows k hk]
    refine hp.larger _ (h.apply_lt_iff.mpr hrows) (h.le_apply_iff.mpr hi) fun heq => hne ?_
    rw [← heq, Equiv.symm_apply_apply]

theorem swap_lt {n x y i : ℕ} (hx : x < n) (hy : y < n) (hi : i < n) : Equiv.swap x y i < n := by
  rw [Equiv.swap_apply_def]
  split_ifs <;> assumption

theorem entry_exchangeRows_swap (m : DenseMatrix α) {x y i j : ℕ} (hi : i < m.rows)
    (hj : j < m.cols) : (m.exchangeRows x y).entry i j = m.entry (Equiv.swap x y i) j := by
  rw [entry_exchangeRows m x y hi hj, Equiv.swap_apply_def]

/-- Bringing up the same row, from wherever it stands, leaves the other rows to be rearranged. -/
theorem exchangeRows (h : Rearranged k σ a b) (hk : k < a.rows) (hkp : k ≤ p) (hp : p < a.rows) :
    Rearranged (k + 1) (Equiv.swap k p * σ * Equiv.swap k (σ.symm p)) (a.exchangeRows k p)
      (b.exchangeRows k (σ.symm p)) := by
  set q := σ.symm p with hq
  have hσq : σ q = p := σ.apply_symm_apply p
  have hqr : q < a.rows := h.apply_lt_iff.mp (hσq.symm ▸ hp)
  have hfix {i : ℕ} (hik : i ≠ k) (hip : i ≠ p) (hi : σ i = i) :
      (Equiv.swap k p * σ * Equiv.swap k q) i = i := by
    have hiq : i ≠ q := by
      rintro rfl
      exact hip (hi.symm.trans hσq)
    rw [Equiv.Perm.mul_apply, Equiv.Perm.mul_apply, Equiv.swap_apply_of_ne_of_ne hik hiq, hi,
      Equiv.swap_apply_of_ne_of_ne hik hip]
  refine ⟨h.rows_eq, h.cols_eq, fun i hi => ?_, fun i (hi : a.rows ≤ i) => ?_,
    fun i (hi : i < a.rows) j (hj : j < a.cols) => ?_⟩
  · rcases Nat.lt_succ_iff_lt_or_eq.mp hi with hik | rfl
    · exact hfix hik.ne (by omega) (h.done i hik)
    · simp [hσq]
  · exact hfix (by omega) (by omega) (h.outside i hi)
  · have hsource : Equiv.swap k q i < a.rows := swap_lt hk hqr hi
    have htarget : Equiv.swap k p (σ (Equiv.swap k q i)) < a.rows :=
      swap_lt hk hp (h.apply_lt_iff.mpr hsource)
    rw [entry_exchangeRows_swap b (h.rows_eq.symm ▸ hi) (h.cols_eq.symm ▸ hj),
      h.entry_eq _ hsource j hj, Equiv.Perm.mul_apply, Equiv.Perm.mul_apply,
      entry_exchangeRows_swap a htarget hj, Equiv.swap_apply_self]

theorem apply_ne_iff (h : Rearranged (k + 1) σ a b) {i : ℕ} : σ i ≠ k ↔ i ≠ k := by
  rw [← h.done k k.lt_succ_self, σ.injective.ne_iff, h.done k k.lt_succ_self]

theorem normalizeRow (h : Rearranged (k + 1) σ a b) (value : α) :
    Rearranged (k + 1) σ (a.normalizeRow k value) (b.normalizeRow k value) := by
  refine ⟨h.rows_eq, h.cols_eq, h.done, h.outside,
    fun i (hi : i < a.rows) j (hj : j < a.cols) => ?_⟩
  rw [entry_normalizeRow b _ _ (h.rows_eq.symm ▸ hi) (h.cols_eq.symm ▸ hj),
    entry_normalizeRow a _ _ (h.apply_lt_iff.mpr hi) hj, h.entry_eq i hi j hj]
  simp only [h.apply_ne_iff]

theorem reaches_apply (h : Rearranged (k + 1) σ a b) (i : ℕ) :
    sweep.reaches k (σ i) = sweep.reaches k i := by
  cases sweep with
  | below => exact decide_eq_decide.mpr h.le_apply_iff
  | all => exact decide_eq_decide.mpr h.apply_ne_iff

theorem clearColumn (h : Rearranged (k + 1) σ a b) (hk : k < a.rows) (hkc : k < a.cols) :
    Rearranged (k + 1) σ (a.clearColumn k sweep) (b.clearColumn k sweep) := by
  refine ⟨h.rows_eq, h.cols_eq, h.done, h.outside,
    fun i (hi : i < a.rows) j (hj : j < a.cols) => ?_⟩
  have hpivot : b.entry k j = a.entry k j := by
    rw [h.entry_eq k hk j hj, h.done k k.lt_succ_self]
  have htarget : b.isTarget k sweep i = a.isTarget k sweep (σ i) := by
    rw [isTarget, isTarget, h.entry_eq i hi k hkc, h.reaches_apply]
  rw [entry_clearColumn b _ _ (h.rows_eq.symm ▸ hi) (h.cols_eq.symm ▸ hj),
    entry_clearColumn a _ _ (h.apply_lt_iff.mpr hi) hj, htarget, hpivot, h.entry_eq i hi j hj,
    h.entry_eq i hi k hkc]

theorem pivot_eq [OrderedMagnitudes α] (h : Rearranged k σ a b) (hk : k < a.cols)
    (hp : a.Leads k p) : b.pivot k = a.pivot k := by
  rw [pivot, pivot, hp.pivotRow_eq, (h.leads hk hp).pivotRow_eq, h.entry_symm hp.lt_rows hk]

/-- Where the pivot is undisputed, the searches find the same one, or none will do in either. -/
theorem isNearZero_pivot_eq [OrderedMagnitudes α] (h : Rearranged k σ a b) (hk : k < a.rows)
    (hkc : k < a.cols) (hund : a.Undisputed k) :
    isNearZero (b.pivot k) = isNearZero (a.pivot k) ∧
      (isNearZero (a.pivot k) = false → ∃ p, a.Leads k p) := by
  rcases hund with ⟨p, -, hp⟩ | hnear
  · rw [h.pivot_eq hkc hp]
    exact ⟨rfl, fun _ => ⟨p, hp⟩⟩
  · have hnear' : ∀ i < b.rows, k ≤ i → isNearZero (b.entry i k) = true := by
      intro i hib hi
      rw [h.rows_eq] at hib
      rw [h.entry_eq i hib k hkc]
      exact hnear _ (h.apply_lt_iff.mpr hib) (h.le_apply_iff.mpr hi)
    rw [isNearZero_pivot hk hnear, isNearZero_pivot (h.rows_eq.symm ▸ hk) hnear']
    exact ⟨rfl, nofun⟩

/-- A column with an undisputed pivot takes rearranged matrices to rearranged matrices. -/
theorem reduced [OrderedMagnitudes α] (h : Rearranged k σ a b) (sweep : Sweep) (hk : k < a.cols)
    (hp : a.Leads k p) :
    ∃ σ', Rearranged (k + 1) σ' (a.reduced k sweep) (b.reduced k sweep) := by
  have hkr := hp.le.trans_lt hp.lt_rows
  have hnext : Rearranged (k + 1) (Equiv.swap k p * σ * Equiv.swap k (σ.symm p))
      (a.reduced k sweep) (b.reduced k sweep) := by
    rw [DenseMatrix.reduced, DenseMatrix.reduced, normalized, normalized, hp.pivotRow_eq,
      (h.leads hk hp).pivotRow_eq, h.pivot_eq hk hp]
    exact ((h.exchangeRows hkr hp.le hp.lt_rows).normalizeRow _).clearColumn hkr hk
  exact ⟨_, hnext⟩

end Rearranged

/-! ## The run -/

/-- From wherever the elimination of `start` comes with an undisputed pivot in each column, matrices
that are rearranged there are reduced to the same matrix or fail in the same column. -/
theorem Rearranged.outcome_reduceFrom [OrderedMagnitudes α] {start : DenseMatrix α} {left : ℕ}
    (hund : ∀ j < start.rows, ∀ w, start.Reaches sweep j w → w.Undisputed j)
    (hreach : start.Reaches sweep k a) (h : Rearranged k σ a b) (hrows : k + left = start.rows)
    (hcols : start.rows ≤ start.cols) :
    (b.reduceFrom sweep k left).outcome = (a.reduceFrom sweep k left).outcome := by
  obtain ⟨hsame, hsame'⟩ := hreach.shape (by omega)
  induction left generalizing k a b σ with
  | zero =>
    have hdone : b = a := h.eq (by omega)
    rw [hdone]
  | succ left ih =>
    obtain ⟨hnear, hleads⟩ :=
      h.isNearZero_pivot_eq (by omega) (by omega) (hund k (by omega) a hreach)
    rw [reduceFrom_succ, reduceFrom_succ, hnear]
    cases hzero : isNearZero (a.pivot k) with
    | true => rfl
    | false =>
      obtain ⟨p, hp⟩ := hleads hzero
      obtain ⟨σ', hnext⟩ := h.reduced sweep (by omega) hp
      exact ih (hreach.next hzero) hnext (by omega) hsame hsame'

/-! ## From the start -/

variable {m : DenseMatrix α}

@[simp] theorem rows_permuteRows (m : DenseMatrix α) (τ : Equiv.Perm (Fin m.rows)) :
    (m.permuteRows τ).rows = m.rows := rfl

@[simp] theorem cols_permuteRows (m : DenseMatrix α) (τ : Equiv.Perm (Fin m.rows)) :
    (m.permuteRows τ).cols = m.cols := rfl

theorem entry_permuteRows (τ : Equiv.Perm (Fin m.rows)) (i : Fin m.rows) {j : ℕ}
    (hj : j < m.cols) : (m.permuteRows τ).entry i j = m.entry (τ i) j := by
  rw [permuteRows, entry_ofFn _ i.isLt hj, dif_pos i.isLt]

theorem rearranged_permuteRows (τ : Equiv.Perm (Fin m.rows)) :
    Rearranged 0 (τ.extendDomain Fin.equivSubtype) m (m.permuteRows τ) where
  rows_eq := rfl
  cols_eq := rfl
  done i hi := absurd hi i.not_lt_zero
  outside i hi := Equiv.Perm.extendDomain_apply_not_subtype _ _ hi.not_gt
  entry_eq i hi j hj := by
    rw [Equiv.Perm.extendDomain_apply_subtype τ Fin.equivSubtype hi]
    exact entry_permuteRows τ ⟨i, hi⟩ hj

theorem outcome_reduce_permuteRows [OrderedMagnitudes α] (hcols : m.rows ≤ m.cols)
    (hund : ∀ k < m.rows, ∀ work, m.Reaches sweep k work → work.Undisputed k)
    (τ : Equiv.Perm (Fin m.rows)) :
    ((m.permuteRows τ).reduce sweep).outcome = (m.reduce sweep).outcome :=
  (rearranged_permuteRows τ).outcome_reduceFrom hund (m.reaches_zero sweep)
    (Nat.zero_add m.rows) hcols

end DenseSystem.DenseMatrix
