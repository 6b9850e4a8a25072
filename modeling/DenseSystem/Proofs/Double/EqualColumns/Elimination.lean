import Mathlib.Tactic
import DenseSystem.Proofs.Double.Backward
import DenseSystem.Proofs.Double.Cancelling

/-! # Equal columns in an elimination

Two equal columns stay equal until the first of them is reduced. That step makes the second one a
column of zeros below its pivot, exactly and whatever the rounding, and zeros it stays until its own
pivot is looked for. An infinite pivot could spoil this, but not unseen in a finite solution.
-/
namespace DenseSystem.DenseMatrix

variable {α : Type} [Scalar α]

section Congruence

variable {work : DenseMatrix α} {k j j' : ℕ} {sweep : Sweep}

/-- Reducing a column treats all columns to its right alike. -/
theorem entry_reduced_congr (hk : k < work.rows) (hj : k < j) (hj' : k < j')
    (hcols : j < work.cols) (hcols' : j' < work.cols)
    (h : ∀ i < work.rows, work.entry i j = work.entry i j') {i : ℕ} (hi : i < work.rows) :
    (work.reduced k sweep).entry i j = (work.reduced k sweep).entry i j' := by
  have hpivotRow := h _ (work.pivotRow_lt k hk)
  have hsource := h _ (work.sourceRow_lt hk hi)
  by_cases hik : i = k
  · subst hik
    rw [entry_reduced_pivotRow sweep hk hcols hj, entry_reduced_pivotRow sweep hk hcols' hj',
      hpivotRow]
  · cases ht : (work.normalized k).isTarget k sweep i with
    | false =>
      rw [entry_reduced_of_not_isTarget sweep hi hcols ht,
        entry_reduced_of_not_isTarget sweep hi hcols' ht, entry_normalized_of_ne hi hcols hik,
        entry_normalized_of_ne hi hcols' hik, hsource]
    | true =>
      rw [entry_reduced_target sweep hk hi hcols hj ht,
        entry_reduced_target sweep hk hi hcols' hj' ht, hsource, hpivotRow]

theorem entry_reduced_of_not_reaches {i : ℕ} (hi : i < work.rows) (hj : j < work.cols)
    (hik : i < k) (hreach : sweep.reaches k i = false) :
    (work.reduced k sweep).entry i j = work.entry i j := by
  rw [entry_reduced_of_not_isTarget sweep hi hj (by simp [isTarget, hreach]),
    entry_normalized_of_ne hi hj hik.ne, sourceRow_of_lt work hik]

/-- An entry above the pivot that is finite afterwards was finite before. -/
theorem finite_of_reduced_above [Spoiling α] {i : ℕ} (hk : k < work.rows) (hik : i < k)
    (hkj : k < j) (hj : j < work.cols)
    (h : Scalar.isFinite ((work.reduced k sweep).entry i j) = true) :
    Scalar.isFinite (work.entry i j) = true := by
  have hi : i < work.rows := by omega
  cases ht : (work.normalized k).isTarget k sweep i with
  | false =>
    rwa [entry_reduced_of_not_isTarget sweep hi hj ht, entry_normalized_of_ne hi hj hik.ne,
      sourceRow_of_lt work hik] at h
  | true =>
    rw [entry_reduced_target sweep hk hi hj hkj ht, sourceRow_of_lt work hik] at h
    exact (Spoiling.of_sub h).1

end Congruence

/-- An elimination of a system to its end, with nothing but finite entries there. -/
structure Completed (system : DenseMatrix α) (sweep : Sweep) : Prop where
  augmented : system.isAugmented = true
  pivots : ∀ k < system.rows, isNearZero ((system.reducedTo sweep k).pivot k) = false
  entries : (system.reducedTo sweep system.rows).EntriesFinite

variable {system : DenseMatrix α} {sweep : Sweep} {c d k i : ℕ}

theorem Completed.cols_eq (h : Completed system sweep) : system.cols = system.rows + 1 :=
  (isAugmented_iff.mp h.augmented).2

/-- The columns stay equal until the first of them is reduced. -/
theorem Completed.columns_eq (h : Completed system sweep) (hcd : c < d) (hd : d < system.rows)
    (hequal : ∀ i < system.rows, system.entry i c = system.entry i d) :
    ∀ k ≤ c, ∀ i < system.rows,
      (system.reducedTo sweep k).entry i c = (system.reducedTo sweep k).entry i d := by
  have hcols := h.cols_eq
  intro k hk
  induction k with
  | zero => exact hequal
  | succ k ih =>
    obtain ⟨hrows, hcols'⟩ := system.shape_reducedTo sweep k
    intro i hi
    apply entry_reduced_congr (by omega) (by omega) (by omega) (by omega) (by omega) _ (by omega)
    intro i hi
    exact ih (by omega) i (by omega)

section Finiteness

variable [Spoiling α]

theorem Completed.last_finite (h : Completed system sweep) :
    ∀ left ≤ system.rows, ∀ i < system.rows, Scalar.isFinite
      ((system.reducedTo sweep (system.rows - left)).entry i system.rows) = true := by
  have hcols := h.cols_eq
  intro left hleft
  induction left with
  | zero =>
    obtain ⟨hrows, hcols'⟩ := system.shape_reducedTo sweep system.rows
    exact fun i hi => h.entries i (by omega) system.rows (by omega)
  | succ left ih =>
    have hnext := ih (by omega)
    obtain ⟨hrows, hcols'⟩ := system.shape_reducedTo sweep (system.rows - (left + 1))
    rw [show system.rows - left = system.rows - (left + 1) + 1 by omega] at hnext
    have hprev := (finite_of_reduced_column (by omega) (by omega) (by omega)
      fun i hi => hnext i (by omega)).1
    exact fun i hi => hprev i (by omega)

theorem Completed.usable (h : Completed system sweep) (hk : k < system.rows) :
    (system.reducedTo sweep k).Usable k sweep := by
  have hcols := h.cols_eq
  have hnext := h.last_finite (system.rows - (k + 1)) (by omega)
  rw [show system.rows - (system.rows - (k + 1)) = k + 1 by omega] at hnext
  obtain ⟨hrows, hcols'⟩ := system.shape_reducedTo sweep k
  exact (finite_of_reduced_column (by omega) hk (by omega) fun i hi => hnext i (by omega)).2

/-- The entry of the first pivot's row in the second column is finite when that column is reduced. -/
theorem Completed.finite_twin (h : Completed system sweep) (hcd : c < d) (hd : d < system.rows) :
    Scalar.isFinite ((system.reducedTo sweep d).entry c d) = true := by
  have hcols := h.cols_eq
  cases hreach : sweep.reaches d c with
  | true =>
    obtain ⟨hrows, -⟩ := system.shape_reducedTo sweep d
    have hfactor := (h.usable hd).factor c (by omega) hreach
    rwa [sourceRow_of_lt _ hcd] at hfactor
  | false =>
    have hbelow : sweep = .below := by
      cases sweep with
      | below => rfl
      | all => exact absurd hreach (by simp [Sweep.reaches, hcd.ne])
    have hkept : ∀ k, d ≤ k → k ≤ system.rows →
        (system.reducedTo sweep k).entry c d = (system.reducedTo sweep d).entry c d := by
      intro k hdk hk
      induction k, hdk using Nat.le_induction with
      | base => rfl
      | succ k hdk ih =>
        obtain ⟨hrows, hcols'⟩ := system.shape_reducedTo sweep k
        rw [← ih (by omega)]
        apply entry_reduced_of_not_reaches (by omega) (by omega) (by omega)
        rw [hbelow]
        exact decide_eq_false (by omega)
    rw [← hkept system.rows hd.le le_rfl]
    obtain ⟨hrows, hcols'⟩ := system.shape_reducedTo sweep system.rows
    exact h.entries c (by omega) d (by omega)

theorem Completed.finite_pivot (h : Completed system sweep) (hcd : c < d) (hd : d < system.rows)
    (hequal : ∀ i < system.rows, system.entry i c = system.entry i d) :
    Scalar.isFinite ((system.reducedTo sweep c).pivot c) = true := by
  have hcols := h.cols_eq
  have hback : ∀ left, left + c + 1 ≤ d →
      Scalar.isFinite ((system.reducedTo sweep (d - left)).entry c d) = true := by
    intro left hleft
    induction left with
    | zero => exact h.finite_twin hcd hd
    | succ left ih =>
      have hprev := ih (by omega)
      obtain ⟨hrows, hcols'⟩ := system.shape_reducedTo sweep (d - (left + 1))
      rw [show d - left = d - (left + 1) + 1 by omega] at hprev
      exact finite_of_reduced_above (by omega) (by omega) (by omega) (by omega) hprev
  have hquotient := hback (d - (c + 1)) (by omega)
  obtain ⟨hrows, hcols'⟩ := system.shape_reducedTo sweep c
  have hc : c < (system.reducedTo sweep c).rows := by omega
  have hsame := h.columns_eq hcd hd hequal c le_rfl _
    (hrows ▸ (system.reducedTo sweep c).pivotRow_lt c hc)
  rw [show d - (d - (c + 1)) = c + 1 by omega, reducedTo,
    entry_reduced_pivotRow sweep hc (by omega) hcd, ← hsame] at hquotient
  exact (Spoiling.of_div hquotient).1

end Finiteness

section Zeros

variable [Cancelling α]

/-- Reducing the first of two equal columns clears the second below the pivot. -/
theorem isZero_reduced_twin {work : DenseMatrix α} (hc : c < work.rows) (hcd : c < d)
    (hd : d < work.cols) (hequal : ∀ i < work.rows, work.entry i c = work.entry i d)
    (hpivot : Scalar.isFinite (work.pivot c) = true) (hnear : isNearZero (work.pivot c) = false)
    (huse : work.Usable c sweep) (hi : i < work.rows) (hci : c < i) :
    Scalar.isZero ((work.reduced c sweep).entry i d) = true := by
  have hreach := reaches_of_lt sweep hci
  have hsource := hequal _ (work.sourceRow_lt hc hi)
  cases ht : (work.normalized c).isTarget c sweep i with
  | false =>
    rw [entry_reduced_of_not_isTarget sweep hi hd ht, entry_normalized_of_ne hi hd hci.ne',
      ← hsource]
    rw [isTarget_normalized sweep hi (by omega) hci.ne', hreach] at ht
    simpa using ht
  | true =>
    rw [entry_reduced_target sweep hc hi hd hcd ht, ← hsource,
      ← hequal _ (work.pivotRow_lt c hc)]
    exact Cancelling.isZero_sub_mul_div_self (huse.factor i hi hreach) hpivot
      (Cancelling.isZero_eq_false hnear)

/-- A column of zeros from row `k` on is one of zeros from the next row on, once another column is
reduced. -/
theorem isZero_reduced {work : DenseMatrix α} (hk : k < work.rows) (hkd : k < d)
    (hd : d < work.cols)
    (hzero : ∀ i, k ≤ i → i < work.rows → Scalar.isZero (work.entry i d) = true)
    (hnear : isNearZero (work.pivot k) = false) (huse : work.Usable k sweep)
    (hi : i < work.rows) (hki : k < i) :
    Scalar.isZero ((work.reduced k sweep).entry i d) = true := by
  have hsource := hzero _ (work.le_sourceRow hki.le) (work.sourceRow_lt hk hi)
  cases ht : (work.normalized k).isTarget k sweep i with
  | false =>
    rw [entry_reduced_of_not_isTarget sweep hi hd ht, entry_normalized_of_ne hi hd hki.ne']
    exact hsource
  | true =>
    rw [entry_reduced_target sweep hk hi hd hkd ht]
    refine Cancelling.isZero_sub hsource
      (Cancelling.isZero_mul (huse.factor i hi (reaches_of_lt sweep hki)) ?_)
    exact Cancelling.isZero_div (hzero _ (work.le_pivotRow k k) (work.pivotRow_lt k hk)) huse.pivot
      (Cancelling.isZero_eq_false hnear)

/-- From the reduction of the first column on, the second one is zero where pivots are looked for. -/
theorem Completed.isZero_below (h : Completed system sweep) (hcd : c < d) (hd : d < system.rows)
    (hequal : ∀ i < system.rows, system.entry i c = system.entry i d) :
    ∀ k, c < k → k ≤ d → ∀ i, k ≤ i → i < system.rows →
      Scalar.isZero ((system.reducedTo sweep k).entry i d) = true := by
  have hcols := h.cols_eq
  intro k hck
  induction k, hck using Nat.le_induction with
  | base =>
    intro _ i hi hrow
    obtain ⟨hrows, hcols'⟩ := system.shape_reducedTo sweep c
    have hc : c < system.rows := by omega
    have hcolumns := h.columns_eq hcd hd hequal c le_rfl
    exact isZero_reduced_twin (by omega) hcd (by omega) (fun i hi => hcolumns i (by omega))
      (h.finite_pivot hcd hd hequal) (h.pivots c hc) (h.usable hc) (by omega) hi
  | succ k hck ih =>
    intro hkd i hi hrow
    obtain ⟨hrows, hcols'⟩ := system.shape_reducedTo sweep k
    have hk : k < system.rows := by omega
    have hzero := ih (by omega)
    exact isZero_reduced (by omega) hkd (by omega) (fun i hi hrow => hzero i hi (by omega))
      (h.pivots k hk) (h.usable hk) (by omega) hi

/-- No elimination of a system with two equal coefficient columns comes to its end. -/
theorem not_completed_of_equal_columns (hcd : c < d) (hd : d < system.rows)
    (hequal : ∀ i < system.rows, system.entry i c = system.entry i d) :
    ¬ Completed system sweep := by
  intro h
  obtain ⟨hrows, -⟩ := system.shape_reducedTo sweep d
  have hzero := h.isZero_below hcd hd hequal d hcd le_rfl _
    ((system.reducedTo sweep d).le_pivotRow d d)
    (hrows ▸ (system.reducedTo sweep d).pivotRow_lt d (by omega))
  have hnear := h.pivots d hd
  rw [pivot, Cancelling.isNearZero_of_isZero hzero] at hnear
  cases hnear

end Zeros

end DenseSystem.DenseMatrix
