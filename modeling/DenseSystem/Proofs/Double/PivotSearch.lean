import Mathlib.Tactic
import DenseSystem.Proofs.Double.Largest
import DenseSystem.Proofs.Storage.Elimination

/-! # The pivot search over doubles

The search goes down a column and passes on to an entry whose magnitude is larger than the largest
so far. A comparison with NaN fails, so a NaN at the start is never left and one further down is
never taken. In all other cases the first of the largest magnitudes is found, infinities and zeros
of both signs among them. In a column of numbers it is near zero only if all candidates are, so the
search for an entry that is not near zero then finds none either.
-/
namespace DenseSystem

namespace Double

variable {x y z : Float}

protected theorem lt_of_le_of_lt (hxy : x ≤ y) (hyz : y < z) : x < z := by
  obtain ⟨hx, -, hle⟩ := le_iff.mp hxy
  obtain ⟨-, hz, hlt⟩ := lt_iff.mp hyz
  exact lt_iff.mpr ⟨hx, hz, hle.trans_lt hlt⟩

protected theorem not_lt_of_le (h : x ≤ y) : ¬ y < x := by
  intro hlt
  obtain ⟨-, -, hle⟩ := le_iff.mp h
  obtain ⟨-, -, hlt⟩ := lt_iff.mp hlt
  exact hle.not_gt hlt

end Double

namespace DenseMatrix

variable {m : DenseMatrix Float} {col first last p q k : ℕ} {sweep : Sweep}

/-- Row `p` is where a search of the rows from `first` on and before `last` should end: the first of
the largest magnitudes that are not NaN, or row `first` if it holds NaN. -/
structure IsPivotRow (m : DenseMatrix Float) (col first last p : ℕ) : Prop where
  first_le : first ≤ p
  lt_last : p < last
  eq_first : (m.entry first col).isNaN = true → p = first
  number : (m.entry first col).isNaN = false → (m.entry p col).isNaN = false
  largest : (m.entry first col).isNaN = false → ∀ i, first ≤ i → i < last →
    (m.entry i col).isNaN = false → (m.entry i col).abs ≤ (m.entry p col).abs
  earlier : (m.entry first col).isNaN = false → ∀ i, first ≤ i → i < p →
    (m.entry i col).isNaN = true ∨ (m.entry i col).abs < (m.entry p col).abs

/-! ## One comparison -/

theorem IsPivotRow.passes_on (h : IsPivotRow m col first last p)
    (hlt : (m.entry p col).abs < (m.entry last col).abs) :
    IsPivotRow m col first (last + 1) last := by
  obtain ⟨hp, hlast, -⟩ := Double.lt_abs_iff.mp hlt
  have hp' : (m.entry p col).isNaN = false := hp
  have hlast' : (m.entry last col).isNaN = false := hlast
  exact {
    first_le := h.first_le.trans h.lt_last.le
    lt_last := Nat.lt_succ_self last
    eq_first := fun hnan => by
      rw [← h.eq_first hnan, hp'] at hnan
      cases hnan
    number := fun _ => hlast
    largest := fun hfirst i hi hlt' hnumber => by
      rcases Nat.lt_succ_iff_lt_or_eq.mp hlt' with hbefore | rfl
      · exact Double.le_trans (h.largest hfirst i hi hbefore hnumber) (Double.le_of_lt hlt)
      · exact Double.le_refl ((Double.isNaN_scalarAbs _).trans hlast)
    earlier := fun hfirst i hi hbefore => by
      cases hnumber : (m.entry i col).isNaN with
      | true => exact .inl rfl
      | false => exact .inr (Double.lt_of_le_of_lt (h.largest hfirst i hi hbefore hnumber) hlt) }

theorem IsPivotRow.stays (h : IsPivotRow m col first last p)
    (hlt : ¬ (m.entry p col).abs < (m.entry last col).abs) :
    IsPivotRow m col first (last + 1) p where
  first_le := h.first_le
  lt_last := h.lt_last.trans (Nat.lt_succ_self last)
  eq_first := h.eq_first
  number := h.number
  largest hfirst i hi hlt' hnumber := by
    rcases Nat.lt_succ_iff_lt_or_eq.mp hlt' with hbefore | rfl
    · exact h.largest hfirst i hi hbefore hnumber
    · exact Double.le_of_not_lt ((Double.isNaN_scalarAbs _).trans (h.number hfirst))
        ((Double.isNaN_scalarAbs _).trans hnumber) (Bool.eq_false_of_not_eq_true hlt)
  earlier := h.earlier

theorem IsPivotRow.better (h : IsPivotRow m col first last p) :
    IsPivotRow m col first (last + 1) (m.better col p last) := by
  unfold DenseMatrix.better
  split_ifs with hlt
  · exact h.passes_on hlt
  · exact h.stays hlt

/-! ## The search -/

theorem isPivotRow_self (m : DenseMatrix Float) (col first : ℕ) :
    IsPivotRow m col first (first + 1) first where
  first_le := le_rfl
  lt_last := Nat.lt_succ_self first
  eq_first _ := rfl
  number hfirst := hfirst
  largest hfirst i hi hlt _ := by
    obtain rfl : i = first := by omega
    exact Double.le_refl ((Double.isNaN_scalarAbs _).trans hfirst)
  earlier _ i hi hlt := absurd hlt hi.not_gt

theorem isPivotRow_pivotRow (m : DenseMatrix Float) (col : ℕ) (hfirst : first < m.rows) :
    IsPivotRow m col first m.rows (m.pivotRow col first) :=
  m.pivotRow_invariant col hfirst (m.isPivotRow_self col first) fun _ _ _ _ h => h.better

/-- Of two rows that qualify none comes first. -/
theorem IsPivotRow.le (hp : IsPivotRow m col first last p) (hq : IsPivotRow m col first last q) :
    p ≤ q := by
  cases hfirst : (m.entry first col).isNaN with
  | true => exact (hp.eq_first hfirst).trans_le hq.first_le
  | false =>
    by_contra hlt
    rcases hp.earlier hfirst q hq.first_le (not_le.mp hlt) with hnan | hless
    · rw [hq.number hfirst] at hnan
      cases hnan
    · exact Double.not_lt_of_le
        (hq.largest hfirst p hp.first_le hp.lt_last (hp.number hfirst)) hless

theorem isPivotRow_iff (hfirst : first < m.rows) :
    IsPivotRow m col first m.rows p ↔ p = m.pivotRow col first := by
  have h := m.isPivotRow_pivotRow col hfirst
  exact ⟨fun hp => le_antisymm (hp.le h) (h.le hp), fun hp => hp ▸ h⟩

/-! ## Columns without a pivot -/

/-- Among numbers none is farther from zero than the pivot. -/
theorem isNearZero_pivot_iff (hk : k < m.rows)
    (hnumbers : ∀ i, k ≤ i → i < m.rows → (m.entry i k).isNaN = false) :
    isNearZero (m.pivot k) = true ↔
      ∀ i, k ≤ i → i < m.rows → isNearZero (m.entry i k) = true := by
  have h := m.isPivotRow_pivotRow k hk
  constructor
  · intro hnear i hi hrows
    have hle := h.largest (hnumbers k le_rfl hk) i hi hrows (hnumbers i hi hrows)
    exact Double.lt_of_le_of_lt hle hnear
  · intro hnear
    exact hnear _ h.first_le h.lt_last

theorem reduceColumn_eq_zeroPivot_iff :
    (m.reduceColumn k sweep).outcome = .error (.zeroPivot k) ↔ isNearZero (m.pivot k) = true := by
  rw [reduceColumn_eq]
  split_ifs with hnear <;> simp [hnear]

end DenseMatrix

namespace Storage

open Change DenseMatrix

variable {m : DenseMatrix Float} {k : ℕ} {sweep : Sweep}

theorem run_reduceColumn_eq_zeroPivot_iff (hk : k < m.rows) (hkc : k < m.cols) :
    (run (reduceColumn sweep k) m.storage).1 = .error (.error (.zeroPivot k)) ↔
      (m.reduceColumn k sweep).outcome = .error (.zeroPivot k) := by
  rw [run_reduceColumn sweep hk hkc]
  cases (m.reduceColumn k sweep).outcome <;> simp [applied, Except.mapError]

end Storage

open DenseMatrix in
/-- Over doubles, a search that starts inside of the matrix finds the one row that it should,
whatever infinities, NaN and zeros the column holds. So a column of numbers has no pivot exactly
when all of its candidates are near zero, that is when the search for the first entry that is not
near zero finds none. -/
theorem pivot_search_over_doubles (m : DenseMatrix Float) :
    (∀ col < m.cols, ∀ first < m.rows, ∃ p, m.findPivotRow col first = .ok p ∧
      m.storage.pivotRow col first = .ok p ∧ ∀ q, IsPivotRow m col first m.rows q ↔ q = p) ∧
    ∀ k < m.rows, k < m.cols → (∀ i, k ≤ i → i < m.rows → (m.entry i k).isNaN = false) →
      (∀ sweep, ((m.reduceColumn k sweep).outcome = .error (.zeroPivot k) ↔
          ∀ i, k ≤ i → i < m.rows → isNearZero (m.entry i k) = true) ∧
        ((Storage.Change.run (Storage.reduceColumn sweep k) m.storage).1 =
            .error (.error (.zeroPivot k)) ↔
          ∀ i, k ≤ i → i < m.rows → isNearZero (m.entry i k) = true)) ∧
      ((∀ i, k ≤ i → i < m.rows → isNearZero (m.entry i k) = true) ↔ m.nonzeroRow? k k = none) := by
  refine ⟨fun col hcol first hfirst => ?_, fun k hk hkc hnumbers => ?_⟩
  · exact ⟨m.pivotRow col first, if_pos ⟨hfirst, hcol⟩, Storage.pivotRow_storage hfirst hcol,
      fun q => isPivotRow_iff hfirst⟩
  · refine ⟨fun sweep => ?_, (m.nonzeroRow?_eq_none_iff k k).symm⟩
    have hfails : (m.reduceColumn k sweep).outcome = .error (.zeroPivot k) ↔
        ∀ i, k ≤ i → i < m.rows → isNearZero (m.entry i k) = true := by
      rw [reduceColumn_eq_zeroPivot_iff, isNearZero_pivot_iff hk hnumbers]
    exact ⟨hfails, (Storage.run_reduceColumn_eq_zeroPivot_iff hk hkc).trans hfails⟩

open DenseMatrix in
/-- In the first column the NaN of row 0 is not left, and a search from row 1 on finds the first of
two infinities of different signs. The numbers of the second column are near zero from row 1 on. -/
theorem pivot_search_beside_nan_and_infinities :
    let m : DenseMatrix Float :=
      ⟨4, 2, #[0.0 / 0.0, 1, 3, 1e-13, -1.0 / 0.0, -0.0, 1.0 / 0.0, -1e-13], rfl⟩
    m.findPivotRow 0 0 = .ok 0 ∧ IsPivotRow m 0 0 4 0 ∧
      m.findPivotRow 0 1 = .ok 2 ∧ IsPivotRow m 0 1 4 2 ∧
      (∀ i, 1 ≤ i → i < m.rows → (m.entry i 1).isNaN = false) ∧ m.nonzeroRow? 1 1 = none ∧
      (m.reduceColumn 1 .all).outcome = .error (.zeroPivot 1) := by
  intro m
  obtain ⟨hsearch, hcolumn⟩ := pivot_search_over_doubles m
  have hfound (first p : ℕ) (hfirst : first < m.rows) (hp : m.pivotRow 0 first = p) :
      m.findPivotRow 0 first = .ok p ∧ IsPivotRow m 0 first 4 p := by
    obtain ⟨q, hq, -, hspec⟩ := hsearch 0 (by decide) first hfirst
    have hpq : m.findPivotRow 0 first = .ok p := by
      rw [findPivotRow, if_pos ⟨hfirst, by decide⟩, hp]
    rw [hpq] at hq
    cases hq
    exact ⟨hpq, (hspec p).mpr rfl⟩
  obtain ⟨hnan, hnan'⟩ := hfound 0 0 (by decide) (by decide +kernel)
  obtain ⟨hinfinity, hinfinity'⟩ := hfound 1 2 (by decide) (by decide +kernel)
  have hnumbers : ∀ i < m.rows, 1 ≤ i → (m.entry i 1).isNaN = false := by decide +kernel
  replace hnumbers : ∀ i, 1 ≤ i → i < m.rows → (m.entry i 1).isNaN = false :=
    fun i hi hrows => hnumbers i hrows hi
  obtain ⟨hfails, hnone⟩ := hcolumn 1 (by decide) (by decide) hnumbers
  have hsearched : m.nonzeroRow? 1 1 = none := by decide +kernel
  exact ⟨hnan, hnan', hinfinity, hinfinity', hnumbers, hsearched,
    (hfails .all).1.mpr (hnone.mpr hsearched)⟩

end DenseSystem
