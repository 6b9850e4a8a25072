import Mathlib
import DenseSystem.Proofs.Determinant.Rearranged
import DenseSystem.Proofs.Double.SignedZeros
import DenseSystem.Proofs.Rank.LastColumn

/-! # Eliminations that only exchange rows

If the first columns of a matrix are an identity, no elimination changes anything: every pivot is one
and in its place, and the other rows hold a zero there. If they are a permutation of the rows of an
identity, the eliminations bring the rows into order and do nothing else, whatever stands to their
right.
-/
namespace DenseSystem

/-- Arithmetic in which one and its opposite are large enough to be pivots. -/
class UnitPivots (α : Type) [Scalar α] : Prop extends SignlessZeros α, OrderedMagnitudes α,
    SignedProducts α where
  isNearZero_one : isNearZero (1 : α) = false
  isNearZero_neg_one : isNearZero (-1 : α) = false
  lt_abs_one : Scalar.lt (Scalar.abs (0 : α)) (Scalar.abs 1) = true

instance : UnitPivots Float where
  isNearZero_one := by decide +kernel
  isNearZero_neg_one := by decide +kernel
  lt_abs_one := by decide +kernel

namespace DenseMatrix

variable {α : Type} [Scalar α]

structure LeftIdentity (m : DenseMatrix α) : Prop where
  rows_le_cols : m.rows ≤ m.cols
  entry_eq : ∀ i < m.rows, ∀ j < m.rows, m.entry i j = if i = j then 1 else 0

variable {m a b work : DenseMatrix α} {sweep : Sweep} {i j k : ℕ}

/-! ## An identity on the left -/

namespace LeftIdentity

theorem entry_self (h : m.LeftIdentity) (hk : k < m.rows) : m.entry k k = 1 := by
  rw [h.entry_eq k hk k hk, if_pos rfl]

theorem entry_of_ne (h : m.LeftIdentity) (hi : i < m.rows) (hj : j < m.rows) (hne : i ≠ j) :
    m.entry i j = 0 := by
  rw [h.entry_eq i hi j hj, if_neg hne]

variable [UnitPivots α]

theorem leads (h : m.LeftIdentity) (hk : k < m.rows) : m.Leads k k where
  le := le_rfl
  lt_rows := hk
  larger i hi _ hne := by
    rw [h.entry_of_ne hi hk hne, h.entry_self hk]
    exact UnitPivots.lt_abs_one

theorem undisputed (h : m.LeftIdentity) (hk : k < m.rows) : m.Undisputed k :=
  .inl ⟨k, hk, h.leads hk⟩

theorem pivotRow_eq (h : m.LeftIdentity) (hk : k < m.rows) : m.pivotRow k k = k :=
  (h.leads hk).pivotRow_eq

theorem pivot_eq (h : m.LeftIdentity) (hk : k < m.rows) : m.pivot k = 1 := by
  rw [pivot, h.pivotRow_eq hk, h.entry_self hk]

theorem isNearZero_pivot (h : m.LeftIdentity) (hk : k < m.rows) :
    isNearZero (m.pivot k) = false := by
  rw [h.pivot_eq hk]
  exact UnitPivots.isNearZero_one

theorem sourceRow_eq (h : m.LeftIdentity) (hk : k < m.rows) (i : ℕ) : m.sourceRow k i = i := by
  rw [sourceRow, h.pivotRow_eq hk]
  split_ifs with hik
  · exact hik.symm
  · rfl

/-- Dividing by one and skipping zeros changes nothing. -/
theorem reduced_eq (h : m.LeftIdentity) (hk : k < m.rows) (sweep : Sweep) :
    m.reduced k sweep = m := by
  have hkc := hk.trans_le h.rows_le_cols
  refine ext_entry rfl rfl fun i (hi : i < m.rows) j (hj : j < m.cols) => ?_
  by_cases hik : i = k
  · subst hik
    rcases lt_trichotomy j i with hji | rfl | hij
    · rw [entry_reduced_left sweep hi hj hji, h.sourceRow_eq hi]
    · rw [entry_reduced_self sweep hi hj, h.entry_self hi]
    · rw [entry_reduced_pivotRow sweep hi hj hij, h.pivotRow_eq hi, h.pivot_eq hi,
        SignlessZeros.div_one]
  · have ht : (m.normalized k).isTarget k sweep i = false := by
      rw [isTarget_normalized sweep hi hkc hik, h.sourceRow_eq hk, h.entry_of_ne hi hk hik,
        Spoiling.isZero_zero, Bool.not_true, Bool.and_false]
    rw [entry_reduced_of_not_isTarget sweep hi hj ht, entry_normalized_of_ne hi hj hik,
      h.sourceRow_eq hk]

theorem eq_of_reaches (h : m.LeftIdentity) (hreach : m.Reaches sweep k work) (hk : k ≤ m.rows) :
    work = m := by
  refine hreach.invariant (P := fun _ work => work = m) ?_ hk rfl
  rintro k work rfl hk -
  exact h.reduced_eq hk sweep

theorem outcome_reduce (h : m.LeftIdentity) (sweep : Sweep) :
    (m.reduce sweep).outcome = .ok m := by
  cases hrun : (m.reduce sweep).outcome with
  | ok work => rw [h.eq_of_reaches hrun le_rfl]
  | error e =>
    obtain ⟨k, hk, work, hreach, hnear, -⟩ := reduce_eq_error_iff.mp hrun
    rw [h.eq_of_reaches hreach hk.le, h.isNearZero_pivot hk] at hnear
    cases hnear

theorem subtracted_eq (h : m.LeftIdentity) (hk : k < m.rows) : m.subtracted k k k = m := by
  have hkc := hk.trans_le h.rows_le_cols
  have hstays (i : ℕ) : broughtUp k k i = i := by
    unfold broughtUp
    split_ifs <;> omega
  refine ext_entry rfl rfl fun i (hi : i < m.rows) j (hj : j < m.cols) => ?_
  by_cases hdone : i ≤ k ∨ j < k
  · rw [entry_subtracted_of_done hi hj hdone, hstays]
  · rw [not_or, not_le, not_lt] at hdone
    have hfactor : m.factor k k k i = 0 := by
      rw [factor, hstays, h.entry_of_ne hi hk hdone.1.ne', h.entry_self hk, SignlessZeros.div_one]
    rw [entry_subtracted hk le_rfl hi hj hkc hdone.1 hdone.2, hfactor, Spoiling.isZero_zero,
      if_pos rfl, hstays]

theorem determinantUpTo_eq (h : m.LeftIdentity) (hk : k ≤ m.rows) :
    m.determinantUpTo k = some (m, 1) := by
  induction k with
  | zero => rfl
  | succ k ih =>
    rw [determinantUpTo, ih (by omega), Option.bind_some, determinantStep_eq,
      h.isNearZero_pivot hk, if_neg Bool.false_ne_true, h.pivotRow_eq hk, if_pos rfl,
      h.pivot_eq hk, h.subtracted_eq hk, SignlessZeros.one_mul]

theorem determinantFrom_eq (h : m.LeftIdentity) : m.determinantFrom 1 0 m.rows = 1 := by
  have hend := determinantFrom_of_determinantUpTo (h.determinantUpTo_eq le_rfl) 0
  exact hend

theorem determinantFrom_ne_zero (h : m.LeftIdentity) : m.determinantFrom 1 0 m.rows ≠ 0 := by
  rw [h.determinantFrom_eq]
  intro hone
  have hzero : Scalar.isZero (1 : α) = false := SignlessZeros.isZero_one
  rw [hone, Spoiling.isZero_zero] at hzero
  cases hzero

/-- The search for a nonzero entry finds the one, wherever its row stands. -/
theorem nonzeroRow?_eq (ha : a.LeftIdentity) {σ : Equiv.Perm ℕ} (h : Rearranged k σ a b)
    (hk : k < a.rows) : b.nonzeroRow? k k = some (σ.symm k) := by
  have hkc := hk.trans_le ha.rows_le_cols
  cases hp : b.nonzeroRow? k k with
  | none =>
    have hrow : σ.symm k < b.rows := by
      rwa [h.rows_eq, ← h.apply_lt_iff, Equiv.apply_symm_apply]
    have hle : k ≤ σ.symm k := by rw [← h.le_apply_iff, Equiv.apply_symm_apply]
    have hnear := (nonzeroRow?_eq_none_iff b k k).mp hp (σ.symm k) hle hrow
    rw [h.entry_symm hk hkc, ha.entry_self hk, UnitPivots.isNearZero_one] at hnear
    cases hnear
  | some p =>
    obtain ⟨-, hlt, hnear⟩ := nonzeroRow?_spec hp
    rw [h.rows_eq] at hlt
    have hone : σ p = k := by
      by_contra hne
      rw [h.entry_eq p hlt k hkc, ha.entry_of_ne (h.apply_lt_iff.mpr hlt) hk hne,
        Cancelling.isNearZero_of_isZero Spoiling.isZero_zero] at hnear
      cases hnear
    rw [← hone, Equiv.symm_apply_apply]

theorem rearranged_echelon (ha : a.LeftIdentity) {σ : Equiv.Perm ℕ} (h : Rearranged 0 σ a b) :
    ∀ k ≤ a.rows, (b.echelon k).2 = k ∧ ∃ σ', Rearranged k σ' a (b.echelon k).1 := by
  intro k hk
  induction k with
  | zero => exact ⟨rfl, σ, h⟩
  | succ k ih =>
    obtain ⟨hfound, σ', hwork⟩ := ih (by omega)
    have hkr : k < a.rows := hk
    have hnext := hwork.subtracted (hkr.trans_le ha.rows_le_cols) (ha.leads hkr)
    rw [ha.subtracted_eq hkr] at hnext
    rw [echelon, hfound, echelonStep_of_some (ha.nonzeroRow?_eq hwork hkr)]
    exact ⟨rfl, _, hnext⟩

end LeftIdentity

/-! ## Rows in another order -/

theorem entry_permuteRows_symm (σ : Equiv.Perm (Fin m.rows)) (i : Fin m.rows) (hj : j < m.cols) :
    (m.permuteRows σ.symm).entry (σ i) j = m.entry i j := by
  rw [entry_permuteRows σ.symm (σ i) hj, Equiv.symm_apply_apply]

theorem permuteRows_symm (m : DenseMatrix α) (σ : Equiv.Perm (Fin m.rows)) :
    (m.permuteRows σ.symm).permuteRows σ = m := by
  refine ext_entry rfl rfl fun i (hi : i < m.rows) j (hj : j < m.cols) => ?_
  rw [entry_permuteRows (m := m.permuteRows σ.symm) σ ⟨i, hi⟩ hj]
  exact entry_permuteRows_symm σ ⟨i, hi⟩ hj

/-- The first columns are the rows of an identity in another order: row `i` holds its one in column
`σ i`. -/
structure LeftPermutation (m : DenseMatrix α) (σ : Equiv.Perm (Fin m.rows)) : Prop where
  rows_le_cols : m.rows ≤ m.cols
  entry_eq : ∀ i : Fin m.rows, ∀ j < m.rows, m.entry i j = if (σ i : ℕ) = j then 1 else 0

namespace LeftPermutation

variable {σ : Equiv.Perm (Fin m.rows)}

theorem leftIdentity (h : m.LeftPermutation σ) : (m.permuteRows σ.symm).LeftIdentity where
  rows_le_cols := h.rows_le_cols
  entry_eq i (hi : i < m.rows) j (hj : j < m.rows) := by
    rw [entry_permuteRows σ.symm ⟨i, hi⟩ (hj.trans_le h.rows_le_cols), h.entry_eq _ j hj,
      Equiv.apply_symm_apply]

variable [UnitPivots α]

theorem outcome_reduce (h : m.LeftPermutation σ) (sweep : Sweep) :
    (m.reduce sweep).outcome = .ok (m.permuteRows σ.symm) := by
  have hund : ∀ k < m.rows, ∀ work, (m.permuteRows σ.symm).Reaches sweep k work →
      work.Undisputed k := by
    intro k hk work hwork
    rw [h.leftIdentity.eq_of_reaches hwork hk.le]
    exact h.leftIdentity.undisputed hk
  have hsame := outcome_reduce_permuteRows h.leftIdentity.rows_le_cols hund σ
  rw [permuteRows_symm, h.leftIdentity.outcome_reduce] at hsame
  exact hsame

theorem rank_eq (h : m.LeftPermutation σ) (hsquare : m.isSquare = true) : m.rank = m.rows := by
  have hrearranged := (m.permuteRows σ.symm).rearranged_permuteRows σ
  rw [permuteRows_symm] at hrearranged
  rw [rank_eq_echelon, ← rows_eq_cols_of_isSquare hsquare]
  exact (h.leftIdentity.rearranged_echelon hrearranged m.rows le_rfl).1

/-- Each pivot is one, so that the exchanges are all that counts. -/
theorem determinant_eq (h : m.LeftPermutation σ) (hsquare : m.isSquare = true) :
    m.determinant = .ok (signed (Equiv.Perm.sign σ) 1) := by
  have hsquare' : (m.permuteRows σ.symm).isSquare = true := hsquare
  obtain ⟨d, hd, horders⟩ := determinant_of_order hsquare' fun k hk state hstate => by
    rw [h.leftIdentity.determinantUpTo_eq hk.le] at hstate
    cases hstate
    exact h.leftIdentity.undisputed hk
  rw [determinant_of_isSquare hsquare', h.leftIdentity.determinantFrom_eq] at hd
  cases hd
  obtain ⟨d', hd', -, hsign⟩ := horders σ
  rw [permuteRows_symm] at hd'
  exact hd'.trans (congrArg Except.ok
    (hsign (isNearZero_of_mem_determinantTests h.leftIdentity.determinantFrom_ne_zero)))

end LeftPermutation

end DenseMatrix

end DenseSystem
