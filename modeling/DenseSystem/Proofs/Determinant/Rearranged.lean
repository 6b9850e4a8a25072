import Mathlib
import DenseSystem.Proofs.Determinant.Course
import DenseSystem.Proofs.Double.Negation
import DenseSystem.Proofs.Elimination.Rearranged

/-! # Determinants of rearranged rows

As long as no pivot is disputed, matrices with the same rows in different orders are reduced with
the same pivots, though each of them exchanges rows of its own. Every exchange changes the sign of
the product and the parity of what is left to be rearranged, and in the end nothing is left. So the
products differ by the sign of the rearrangement and in nothing else, however they were rounded.
-/
namespace DenseSystem

variable {α : Type} [Scalar α]

/-! ## Signs -/

/-- A value that is negated if a sign is negative. -/
def signed (ε : ℤˣ) (x : α) : α := if ε = 1 then x else -x

@[simp] theorem signed_one (x : α) : signed 1 x = x := rfl

@[simp] theorem signed_neg_one (x : α) : signed (-1) x = -x := rfl

theorem signed_mul [SignedProducts α] (ε : ℤˣ) (x y : α) : signed ε x * y = signed ε (x * y) := by
  rcases Int.units_eq_one_or ε with rfl | rfl
  · rfl
  · exact SignedProducts.neg_mul x y

theorem signed_signed [SignedProducts α] (ε δ : ℤˣ) (x : α) :
    signed ε (signed δ x) = signed (ε * δ) x := by
  rcases Int.units_eq_one_or ε with rfl | rfl
  · rw [one_mul, signed_one]
  · rcases Int.units_eq_one_or δ with rfl | rfl
    · rfl
    · exact SignedProducts.neg_neg x

/-- A sign on one side of a product can be made up for on the other. -/
theorem signed_step [SignedProducts α] (δ δ' ε : ℤˣ) (x y : α) :
    signed δ (signed ε x) * y = signed (δ * ε * δ') (signed δ' x * y) := by
  rw [signed_signed, signed_mul, signed_mul, signed_signed, mul_assoc, Int.units_mul_self, mul_one]

/-- A permutation of the rows of a matrix, as one of all numbers. -/
def MovesRows {n : ℕ} (σ : Equiv.Perm ℕ) (τ : Equiv.Perm (Fin n)) : Prop := ∀ i : Fin n, σ i = τ i

namespace MovesRows

variable {n : ℕ} {σ σ' : Equiv.Perm ℕ} {τ τ' : Equiv.Perm (Fin n)}

theorem mul (h : MovesRows σ τ) (h' : MovesRows σ' τ') : MovesRows (σ * σ') (τ * τ') := by
  intro i
  rw [Equiv.Perm.mul_apply, Equiv.Perm.mul_apply, h' i, h]

theorem swap (p q : Fin n) : MovesRows (Equiv.swap (p : ℕ) q) (Equiv.swap p q) :=
  fun i => Fin.val_injective.swap_apply p q i

theorem symm_apply (h : MovesRows σ τ) (p : Fin n) : σ.symm p = τ.symm p := by
  rw [Equiv.symm_apply_eq, h, Equiv.apply_symm_apply]

theorem sign_eq_one (h : MovesRows σ τ) (hfix : ∀ i < n, σ i = i) : Equiv.Perm.sign τ = 1 := by
  have hone : τ = 1 := Equiv.ext fun i => Fin.ext ((h i).symm.trans (hfix i i.isLt))
  rw [hone, Equiv.Perm.sign_one]

end MovesRows

namespace DenseMatrix

variable {a b m : DenseMatrix α} {k p : ℕ} {σ : Equiv.Perm ℕ}

/-- The sign that bringing up a pivot row gives to a product. -/
theorem ite_eq_signed_swap {n : ℕ} (k p : Fin n) (det : α) :
    (if (p : ℕ) = k then det else -det) = signed (Equiv.Perm.sign (Equiv.swap k p)) det := by
  by_cases hpk : p = k
  · subst hpk
    rw [if_pos rfl, Equiv.swap_self, Equiv.Perm.sign_refl, signed_one]
  · rw [if_neg fun heq => hpk (Fin.ext heq), Equiv.Perm.sign_swap (Ne.symm hpk), signed_neg_one]

/-- What both exchanges do to the product they also do to what is left to be rearranged. -/
theorem sign_rearranged {n : ℕ} (τ : Equiv.Perm (Fin n)) (k p : Fin n) (ε : ℤˣ) :
    Equiv.Perm.sign (Equiv.swap k (τ.symm p)) * ε * Equiv.Perm.sign (Equiv.swap k p) *
        Equiv.Perm.sign (Equiv.swap k p * τ * Equiv.swap k (τ.symm p)) =
      ε * Equiv.Perm.sign τ := by
  rw [Equiv.Perm.sign_mul, Equiv.Perm.sign_mul]
  generalize Equiv.Perm.sign (Equiv.swap k (τ.symm p)) = q
  generalize Equiv.Perm.sign (Equiv.swap k p) = r
  calc q * ε * r * (r * Equiv.Perm.sign τ * q)
      = ε * Equiv.Perm.sign τ * (r * r) * (q * q) := by ac_rfl
    _ = ε * Equiv.Perm.sign τ := by simp only [Int.units_mul_self, mul_one]

/-! ## One column -/

namespace Rearranged

theorem subtractBelow (h : Rearranged (k + 1) σ a b) (hk : k < a.rows) (hkc : k < a.cols) :
    Rearranged (k + 1) σ (a.subtractBelow k k) (b.subtractBelow k k) := by
  refine ⟨h.rows_eq, h.cols_eq, h.done, h.outside,
    fun i (hi : i < a.rows) j (hj : j < a.cols) => ?_⟩
  have hpivot (j : ℕ) (hj : j < a.cols) : b.entry k j = a.entry k j := by
    rw [h.entry_eq k hk j hj, h.done k k.lt_succ_self]
  have hupper : i ≤ k ↔ σ i ≤ k := by
    rw [← Nat.lt_succ_iff, ← Nat.lt_succ_iff, ← not_le, ← not_le, h.le_apply_iff]
  rw [entry_subtractBelow b _ _ (h.rows_eq.symm ▸ hi) (h.cols_eq.symm ▸ hj),
    entry_subtractBelow a _ _ (h.apply_lt_iff.mpr hi) hj, h.entry_eq i hi j hj,
    h.entry_eq i hi k hkc, hpivot k hkc, hpivot j hj]
  simp only [hupper]

theorem subtracted (h : Rearranged k σ a b) (hk : k < a.cols) (hp : a.Leads k p) :
    Rearranged (k + 1) (Equiv.swap k p * σ * Equiv.swap k (σ.symm p)) (a.subtracted k k p)
      (b.subtracted k k (σ.symm p)) := by
  have hkr := hp.le.trans_lt hp.lt_rows
  rw [DenseMatrix.subtracted, DenseMatrix.subtracted, exchangeRows_comm a, exchangeRows_comm b]
  exact (h.exchangeRows hkr hp.le hp.lt_rows).subtractBelow hkr hk

/-- One column with an undisputed pivot. What the exchange in each matrix does to the sign of its
product, both do to the parity of what is left to be rearranged. -/
theorem determinantStep [OrderedMagnitudes α] [SignedProducts α] {n : ℕ} {τ : Equiv.Perm (Fin n)}
    (h : Rearranged k σ a b) (hτ : MovesRows σ τ) (hrows : a.rows = n) (hk : k < a.cols)
    (hp : a.Leads k p) (hpivot : isNearZero (a.pivot k) = false) (ε : ℤˣ) (det : α) :
    ∃ a' b' det' ε' σ', ∃ τ' : Equiv.Perm (Fin n), a.determinantStep det k = some (a', det') ∧
      b.determinantStep (signed ε det) k = some (b', signed ε' det') ∧
      Rearranged (k + 1) σ' a' b' ∧ MovesRows σ' τ' ∧
      ε' * Equiv.Perm.sign τ' = ε * Equiv.Perm.sign τ := by
  have hlt : p < n := hrows ▸ hp.lt_rows
  let first : Fin n := ⟨k, hp.le.trans_lt hlt⟩
  let top : Fin n := ⟨p, hlt⟩
  have hsource : σ.symm p = τ.symm top := hτ.symm_apply top
  have ha : a.pivotRow k k = top := hp.pivotRow_eq
  have hb : b.pivotRow k k = τ.symm top := (h.leads hk hp).pivotRow_eq.trans hsource
  have hnext := h.subtracted hk hp
  rw [hsource] at hnext
  refine ⟨_, _, signed (Equiv.Perm.sign (Equiv.swap first top)) det * a.pivot k, _, _, _, ?_, ?_,
    hnext, ((MovesRows.swap first top).mul hτ).mul (MovesRows.swap first (τ.symm top)),
    sign_rearranged τ first top ε⟩
  · rw [determinantStep_eq, hpivot, ha, ite_eq_signed_swap first top]
    rfl
  · rw [determinantStep_eq, h.pivot_eq hk hp, hpivot, hb, ite_eq_signed_swap first (τ.symm top),
      signed_step _ (Equiv.Perm.sign (Equiv.swap first top))]
    rfl

end Rearranged

/-! ## The run -/

/-- From wherever the determinant of `start` comes with undisputed pivots, take a matrix that is
rearranged there. Either both runs lack a pivot, or their products go on to differ by a sign. -/
theorem Rearranged.determinantFrom_eq [OrderedMagnitudes α] [SignedProducts α]
    {start : DenseMatrix α} {left : ℕ} {τ : Equiv.Perm (Fin start.rows)} (ε : ℤˣ) (det : α)
    (hund : ∀ j < start.rows, ∀ state ∈ start.determinantUpTo j, state.1.Undisputed j)
    (hreach : start.determinantUpTo k = some (a, det)) (h : Rearranged k σ a b)
    (hτ : MovesRows σ τ) (hrows : k + left = start.rows) (hcols : start.rows ≤ start.cols) :
    ((∃ v ∈ a.determinantTests det k left, isNearZero v = true) →
        a.determinantFrom det k left = 0 ∧ b.determinantFrom (signed ε det) k left = 0) ∧
      ((∀ v ∈ a.determinantTests det k left, isNearZero v = false) →
        b.determinantFrom (signed ε det) k left =
          signed (ε * Equiv.Perm.sign τ) (a.determinantFrom det k left)) := by
  obtain ⟨hsame, hsame'⟩ := shape_determinantUpTo hreach
  -- `ε` is the sign that the products differ by so far. Its product with the sign of what is left to
  -- be rearranged stays the same from column to column
  induction left generalizing k a b σ τ ε det with
  | zero =>
    have heven : Equiv.Perm.sign τ = 1 := hτ.sign_eq_one fun i hi => h.done i (by omega)
    rw [heven, mul_one]
    exact ⟨by simp [determinantTests], fun _ => rfl⟩
  | succ left ih =>
    obtain ⟨hnear, hleads⟩ :=
      h.isNearZero_pivot_eq (by omega) (by omega) (hund k (by omega) (a, det) hreach)
    cases hzero : isNearZero (a.pivot k) with
    | true =>
      rw [determinantFrom_succ, determinantFrom_succ, hnear, hzero]
      exact ⟨fun _ => ⟨rfl, rfl⟩, fun hall => by simp [determinantTests, hzero] at hall⟩
    | false =>
      obtain ⟨p, hp⟩ := hleads hzero
      obtain ⟨a', b', det', ε', σ', τ', ha, hb, hnext, hτ', hsign⟩ :=
        h.determinantStep hτ hsame (by omega) hp hzero ε det
      have hreach' : start.determinantUpTo (k + 1) = some (a', det') := by
        rw [determinantUpTo, hreach]
        exact ha
      obtain ⟨hrows', hcols'⟩ := shape_determinantUpTo hreach'
      obtain ⟨hstops, hgoes⟩ := ih ε' det' hreach' hnext hτ' (by omega) hrows' hcols'
      rw [determinantTests, determinantFrom, determinantFrom, ha, hb, ← hsign]
      simp only [List.mem_cons, exists_eq_or_imp, forall_eq_or_imp, hzero, Bool.false_eq_true,
        false_or, true_and]
      exact ⟨hstops, hgoes⟩

/-! ## From the start -/

theorem movesRows_extendDomain {n : ℕ} (τ : Equiv.Perm (Fin n)) :
    MovesRows (τ.extendDomain Fin.equivSubtype) τ :=
  fun i => Equiv.Perm.extendDomain_apply_subtype τ Fin.equivSubtype i.isLt

theorem permuteRows_one (m : DenseMatrix α) : m.permuteRows 1 = m := by
  refine ext_entry rfl rfl fun i (hi : i < m.rows) j (hj : j < m.cols) => ?_
  exact entry_permuteRows 1 ⟨i, hi⟩ hj

theorem exchangeRows_permuteRows (τ : Equiv.Perm (Fin m.rows)) (r s : Fin m.rows) :
    (m.permuteRows τ).exchangeRows r s = m.permuteRows (τ * Equiv.swap r s) := by
  refine ext_entry rfl rfl fun i (hi : i < m.rows) j (hj : j < m.cols) => ?_
  have hswap : Equiv.swap (r : ℕ) s i = Equiv.swap r s ⟨i, hi⟩ := MovesRows.swap r s ⟨i, hi⟩
  rw [Rearranged.entry_exchangeRows_swap _ (by exact hi) (by exact hj), hswap,
    entry_permuteRows τ _ hj]
  exact (entry_permuteRows (τ * Equiv.swap r s) ⟨i, hi⟩ hj).symm

theorem exchangeRows_eq_permuteRows (r s : Fin m.rows) :
    m.exchangeRows r s = m.permuteRows (Equiv.swap r s) := by
  have h := exchangeRows_permuteRows 1 r s
  rwa [permuteRows_one, one_mul] at h

/-- A run stops at one of its pivots or at none. -/
theorem isNearZero_cases (pivots : List α) :
    (∃ v ∈ pivots, isNearZero v = true) ∨ ∀ v ∈ pivots, isNearZero v = false := by
  by_cases h : ∃ v ∈ pivots, isNearZero v = true
  · exact .inl h
  · exact .inr (by simpa using h)

/-- The order of the rows only gives the product its sign, or no order has a pivot in every
column. -/
theorem determinant_of_order [OrderedMagnitudes α] [SignedProducts α] (hsquare : m.isSquare = true)
    (hund : ∀ k < m.rows, ∀ state ∈ m.determinantUpTo k, state.1.Undisputed k) :
    ∃ d, m.determinant = .ok d ∧
      ∀ τ : Equiv.Perm (Fin m.rows), ∃ d', (m.permuteRows τ).determinant = .ok d' ∧
        ((∃ v ∈ m.determinantTests 1 0 m.rows, isNearZero v = true) → d = 0 ∧ d' = 0) ∧
        ((∀ v ∈ m.determinantTests 1 0 m.rows, isNearZero v = false) →
          d' = signed (Equiv.Perm.sign τ) d) := by
  refine ⟨_, determinant_of_isSquare hsquare, fun τ => ⟨_, determinant_of_isSquare hsquare, ?_⟩⟩
  have h := (rearranged_permuteRows τ).determinantFrom_eq 1 1 hund rfl (movesRows_extendDomain τ)
    (Nat.zero_add m.rows) (rows_eq_cols_of_isSquare hsquare).le
  rwa [one_mul, signed_one] at h

end DenseMatrix

open DenseMatrix

/-! ## Doubles -/

/-- The same number, whatever the sign of a zero, or both not a number. -/
def SameNumber (x y : Float) : Prop := (x == y) = true ∨ x.isNaN = true ∧ y.isNaN = true

theorem sameNumber_refl (x : Float) : SameNumber x x := by
  change (x.toModel.unpack.compare x.toModel.unpack == some .eq) = true ∨
    x.toModel.unpack.isNaN = true ∧ x.toModel.unpack.isNaN = true
  rcases x.toModel.unpack with s | _ | s | ⟨s, m, e, hm⟩
  · exact .inl (by cases s <;> rfl)
  · exact .inr ⟨rfl, rfl⟩
  · exact .inl rfl
  · exact .inl (by cases s <;> simp [Float.Model.UnpackedFloat.compare])

theorem sameNumber_signed {d d' : Float} {ε : ℤˣ}
    (h : (d = 0.0 ∧ d' = 0.0) ∨ d' = signed ε d) : SameNumber d' (signed ε d) := by
  rcases h with ⟨rfl, rfl⟩ | rfl
  · rcases Int.units_eq_one_or ε with rfl | rfl
    · exact .inl (by decide +kernel)
    · exact .inl (by decide +kernel)
  · exact sameNumber_refl _

/-- Over doubles, take a square matrix whose pivots are undisputed as far as its determinant is
computed. With its rows in any other order it has the same determinant up to the sign of the
permutation, with all that was rounded on the way. If a pivot is near zero, both determinants are
zero. In particular an exchange of two rows negates the determinant, and a second exchange restores
it. -/
theorem determinant_permuteRows (a : DenseMatrix Float) (hsquare : a.isSquare = true)
    (hund : ∀ k < a.rows, ∀ state ∈ a.determinantUpTo k, state.1.Undisputed k) :
    ∃ d, a.determinant = .ok d ∧
      (∀ σ : Equiv.Perm (Fin a.rows), ∃ d', (a.permuteRows σ).determinant = .ok d' ∧
        SameNumber d' (signed (Equiv.Perm.sign σ) d) ∧
        ((∃ v ∈ a.determinantTests 1 0 a.rows, isNearZero v = true) → d = 0.0 ∧ d' = 0.0) ∧
        ((∀ v ∈ a.determinantTests 1 0 a.rows, isNearZero v = false) →
          d' = signed (Equiv.Perm.sign σ) d)) ∧
      ∀ r s : Fin a.rows, r ≠ s → ∃ d', (a.exchangeRows r s).determinant = .ok d' ∧
        SameNumber d' (-d) ∧ ∀ t u : Fin a.rows, t ≠ u →
          ((a.exchangeRows r s).exchangeRows t u).determinant = .ok d := by
  obtain ⟨d, hd, horders⟩ := determinant_of_order hsquare hund
  have hcases (σ : Equiv.Perm (Fin a.rows)) : ∃ d', (a.permuteRows σ).determinant = .ok d' ∧
      ((d = 0.0 ∧ d' = 0.0) ∨ d' = signed (Equiv.Perm.sign σ) d) := by
    obtain ⟨d', hd', hstops, hgoes⟩ := horders σ
    exact ⟨d', hd', (isNearZero_cases _).imp hstops hgoes⟩
  refine ⟨d, hd, fun σ => ?_, fun r s hrs => ?_⟩
  · obtain ⟨d', hd', hstops, hgoes⟩ := horders σ
    exact ⟨d', hd', sameNumber_signed ((isNearZero_cases _).imp hstops hgoes), hstops, hgoes⟩
  · obtain ⟨d', hd', honce⟩ := hcases (Equiv.swap r s)
    have hsame := sameNumber_signed honce
    rw [Equiv.Perm.sign_swap hrs, signed_neg_one] at hsame
    rw [exchangeRows_eq_permuteRows]
    refine ⟨d', hd', hsame, fun t u htu => ?_⟩
    have heven : Equiv.Perm.sign (Equiv.swap r s * Equiv.swap t u) = 1 := by
      rw [Equiv.Perm.sign_mul, Equiv.Perm.sign_swap hrs, Equiv.Perm.sign_swap htu]
      rfl
    obtain ⟨d'', hd'', htwice⟩ := hcases (Equiv.swap r s * Equiv.swap t u)
    rw [heven, signed_one] at htwice
    rw [exchangeRows_permuteRows, hd'']
    rcases htwice with ⟨rfl, rfl⟩ | rfl <;> rfl

/-- Three rows in their order, rotated, and with the last two exchanged. The first pivot is found in
another row each time. -/
theorem determinant_three_rows_rotated_and_exchanged :
    let a : DenseMatrix Float := ⟨3, 3, #[1, 2, 3, 4, 1, 1, 2, 5, 1], rfl⟩
    ∃ d rotated exchanged, a.determinant = .ok d ∧ isNearZero d = false ∧
      (a.permuteRows (finRotate 3)).determinant = .ok rotated ∧ SameNumber rotated d ∧
      (a.exchangeRows 1 2).determinant = .ok exchanged ∧ SameNumber exchanged (-d) := by
  intro a
  have hund : ∀ k < a.rows, ∀ state ∈ a.determinantUpTo k, state.1.Undisputed k := by
    decide +kernel
  obtain ⟨d, hd, horders, hexchanges⟩ := determinant_permuteRows a rfl hund
  obtain ⟨rotated, hrotated, hsame, -⟩ := horders (finRotate 3)
  obtain ⟨exchanged, hexchanged, hnegated, -⟩ := hexchanges 1 2 (by decide)
  have heven : Equiv.Perm.sign (finRotate 3) = 1 := by decide
  rw [heven, signed_one] at hsame
  cases (determinant_of_isSquare (m := a) rfl).symm.trans hd
  exact ⟨_, _, _, hd, by decide +kernel, hrotated, hsame, hexchanged, hnegated⟩

end DenseSystem
