import Mathlib.Tactic
import DenseSystem.Inverse
import DenseSystem.Proofs.Elimination.Retraced
import DenseSystem.Proofs.Guarded.Matrix

/-! # Guarded eliminations

The rows that a column is cleared from are changed one after the other, each with the factor it then
holds. A matrix with at least as many columns as rows is eliminated without a breach.
-/
namespace DenseSystem.Guarded

open DenseMatrix

variable {α : Type} [Scalar α] {m work : DenseMatrix α} {k : ℕ} {sweep : Sweep}

/-! ## One column -/

def eliminateRow (m : DenseMatrix α) (target source col : ℕ) (factor : α) :
    Guarded (DenseMatrix α) := do
  let subtracted ← subtractRow m target source factor col
  write subtracted target col 0

theorem replaceCells_eq_eliminateRow (m : DenseMatrix α) (target source col : ℕ) (factor : α) :
    (m.replaceCells target col m.cols fun j =>
      m.entry target j - factor * m.entry source j).replaceCells target col (col + 1) (fun _ => 0) =
        m.eliminateRow target source col factor := by
  refine ext_entry rfl rfl ?_
  intro i (hi : i < m.rows) j (hj : j < m.cols)
  have hi' : i < (m.replaceCells target col m.cols fun j =>
    m.entry target j - factor * m.entry source j).rows := hi
  rw [entry_replaceCells hi' hj, entry_replaceCells hi hj,
    entry_eliminateRow m target source col factor hi hj]
  by_cases hit : i = target
  · subst hit
    rcases lt_trichotomy j col with hlt | rfl | hgt
    · rw [if_neg (by omega), if_neg (by omega), if_pos (by omega)]
    · rw [if_pos (by omega), if_neg (by omega), if_pos rfl]
    · rw [if_neg (by omega), if_pos (by omega), if_neg (by omega), if_neg (by omega)]
  · rw [if_neg (by omega), if_neg (by omega), if_pos (Or.inl hit)]

theorem eliminateRow_eq {target source col : ℕ} (factor : α) (ht : target < m.rows)
    (hs : source < m.rows) (hcol : col < m.cols) :
    eliminateRow m target source col factor = .ok (m.eliminateRow target source col factor) := by
  rw [eliminateRow, subtractRow_eq factor ht hs hcol.le, ok_bind, write,
    require_of ⟨ht, hcol⟩, ok_bind]
  exact congrArg Except.ok (replaceCells_eq_eliminateRow m target source col factor)

def firstTarget (k : ℕ) : Sweep → ℕ
  | .below => k + 1
  | .all => 0

def clearColumn (m : DenseMatrix α) (k : ℕ) (sweep : Sweep) :
    Guarded (DenseMatrix α × List (Step α)) :=
  (List.range' (firstTarget k sweep) (m.rows - firstTarget k sweep)).foldlM
    (fun (work, steps) i =>
      if i = k then return (work, steps)
      else do
        let factor ← read work i k
        if Scalar.isZero factor then return (work, steps)
        else
          let cleared ← eliminateRow work i k k factor
          return (cleared, steps ++ [.rowEliminated i k k factor]))
    (m, [])

def targetsBefore (m : DenseMatrix α) (k : ℕ) (sweep : Sweep) (i : ℕ) : List ℕ :=
  (List.range i).filter (m.isTarget k sweep)

theorem notMem_targetsBefore (i : ℕ) : i ∉ targetsBefore m k sweep i := by
  simp [targetsBefore]

theorem targetsBefore_succ (i : ℕ) : targetsBefore m k sweep (i + 1) =
    targetsBefore m k sweep i ++ if m.isTarget k sweep i then [i] else [] := by
  rw [targetsBefore, List.range_succ, List.filter_append]
  cases h : m.isTarget k sweep i <;> simp [targetsBefore, h]

theorem targetsBefore_firstTarget (m : DenseMatrix α) (k : ℕ) (sweep : Sweep) :
    targetsBefore m k sweep (firstTarget k sweep) = [] := by
  cases sweep with
  | below =>
    rw [targetsBefore, List.filter_eq_nil_iff]
    intro i hi
    rw [firstTarget, List.mem_range] at hi
    simp [isTarget, Sweep.reaches, show ¬ k < i by omega]
  | all => rfl

/-- From the first row on, all rows but the pivot row are reached. -/
theorem isTarget_of_firstTarget_le {i : ℕ} (hi : firstTarget k sweep ≤ i) (hik : i ≠ k) :
    m.isTarget k sweep i = !Scalar.isZero (m.entry i k) := by
  have hreaches : sweep.reaches k i = true := by
    cases sweep with
    | below => exact decide_eq_true hi
    | all => exact decide_eq_true hik
  rw [isTarget, hreaches, Bool.true_and]

/-- The matrix and the record once the targets above row `i` are cleared. -/
def clearedBefore (m : DenseMatrix α) (k : ℕ) (sweep : Sweep) (i : ℕ) :
    DenseMatrix α × List (Step α) :=
  (m.clearRows k (targetsBefore m k sweep i),
    (targetsBefore m k sweep i).map fun i => .rowEliminated i k k (m.entry i k))

theorem clearedBefore_firstTarget (m : DenseMatrix α) (k : ℕ) (sweep : Sweep) :
    clearedBefore m k sweep (firstTarget k sweep) = (m, []) := by
  rw [clearedBefore, targetsBefore_firstTarget, clearRows_nil, List.map_nil]

theorem clearedBefore_rows (m : DenseMatrix α) (k : ℕ) (sweep : Sweep) :
    clearedBefore m k sweep m.rows = (m.clearColumn k sweep, m.eliminations k sweep) := by
  rw [clearedBefore, targetsBefore, clearRows_targets]
  rfl

theorem clearedBefore_succ_of_not_isTarget {i : ℕ} (h : m.isTarget k sweep i = false) :
    clearedBefore m k sweep (i + 1) = clearedBefore m k sweep i := by
  rw [clearedBefore, targetsBefore_succ, h, if_neg Bool.false_ne_true, List.append_nil]
  rfl

theorem clearedBefore_succ_of_isTarget {i : ℕ} (hk : k < m.rows)
    (h : m.isTarget k sweep i = true) : clearedBefore m k sweep (i + 1) =
      ((clearedBefore m k sweep i).1.eliminateRow i k k (m.entry i k),
        (clearedBefore m k sweep i).2 ++ [.rowEliminated i k k (m.entry i k)]) := by
  have hnot : k ∉ targetsBefore m k sweep i := by
    simp [targetsBefore, isTarget_self]
  simp only [clearedBefore]
  rw [targetsBefore_succ, if_pos h, eliminateRow_clearRows hk hnot (notMem_targetsBefore i),
    List.map_append]
  rfl

theorem clearColumn_eq (hk : k < m.rows) (hkc : k < m.cols) :
    clearColumn m k sweep = .ok (m.clearColumn k sweep, m.eliminations k sweep) := by
  have hfirst : firstTarget k sweep ≤ m.rows := by
    cases sweep with
    | below => exact hk
    | all => exact Nat.zero_le _
  apply loop_eq (clearedBefore m k sweep) (clearedBefore_firstTarget m k sweep)
    (by rw [Nat.add_sub_cancel' hfirst, clearedBefore_rows])
  intro i hi hlt
  have hrow : i < m.rows := by omega
  -- The factor is read from a matrix whose upper rows have changed already; row `i` has not.
  have hread : read (clearedBefore m k sweep i).1 i k = .ok (m.entry i k) := by
    have hrow' : i < (clearedBefore m k sweep i).1.rows := hrow
    have hkc' : k < (clearedBefore m k sweep i).1.cols := hkc
    rw [read_eq hrow' hkc']
    exact congrArg Except.ok (entry_clearRows_of_notMem hrow hkc (notMem_targetsBefore i))
  dsimp only
  by_cases hik : i = k
  · subst hik
    rw [if_pos rfl, clearedBefore_succ_of_not_isTarget (isTarget_self m i sweep)]
    rfl
  · have htarget := isTarget_of_firstTarget_le hi hik (m := m)
    rw [if_neg hik, hread, ok_bind]
    cases hzero : Scalar.isZero (m.entry i k) with
    | true =>
      rw [hzero] at htarget
      rw [if_pos rfl, clearedBefore_succ_of_not_isTarget htarget]
      rfl
    | false =>
      have heliminate : eliminateRow (clearedBefore m k sweep i).1 i k k (m.entry i k) =
          .ok ((clearedBefore m k sweep i).1.eliminateRow i k k (m.entry i k)) :=
        eliminateRow_eq _ hrow hk hkc
      rw [hzero] at htarget
      rw [if_neg Bool.false_ne_true, heliminate, ok_bind,
        clearedBefore_succ_of_isTarget hk htarget]
      rfl

def reduceColumn (work : DenseMatrix α) (k : ℕ) (sweep : Sweep) : Run α (DenseMatrix α) := do
  let p ← Run.guarded (pivotRow work k k)
  let pivot ← Run.guarded (read work p k)
  Run.of (.record (.pivotSelected k p pivot))
  if isNearZero pivot then Run.of (.fail (.zeroPivot k))
  else
    let up ← Run.guarded (bringUp work k p)
    Run.of (.recordAll (if p = k then [] else [.rowsSwapped k p]))
    let normal ← Run.guarded (normalizeRow up k pivot)
    Run.of (.record (.rowNormalized k pivot))
    let (reduced, steps) ← Run.guarded (clearColumn normal k sweep)
    Run.of (.recordAll steps)
    Run.of (.record (.snapshot (.afterColumn k) reduced))
    return reduced

theorem reduceColumn_eq (sweep : Sweep) (hk : k < work.rows) (hkc : k < work.cols) :
    reduceColumn work k sweep = Run.of (work.reduceColumn k sweep) := by
  have hp := work.pivotRow_lt k hk
  have hbring : (if work.pivotRow k k = k then work else work.exchangeRows k (work.pivotRow k k)) =
      work.exchangeRows k (work.pivotRow k k) := by
    split_ifs with h
    · rw [h, exchangeRows_self]
    · rfl
  rw [reduceColumn, Run.guarded_bind (pivotRow_eq hk hkc), Run.guarded_bind (read_eq hp hkc),
    DenseMatrix.reduceColumn]
  simp only [hbring]
  refine Run.bind_eq rfl fun _ _ => ?_
  cases hzero : isNearZero (work.entry (work.pivotRow k k) k) with
  | true => rfl
  | false =>
    rw [if_neg Bool.false_ne_true, if_neg Bool.false_ne_true, Run.guarded_bind (bringUp_eq hk hp)]
    refine Run.bind_eq rfl fun _ _ => ?_
    rw [Run.guarded_bind (normalizeRow_eq _ (by exact hk) (by exact hkc))]
    refine Run.bind_eq rfl fun _ _ => ?_
    rw [Run.guarded_bind (clearColumn_eq (by exact hk) (by exact hkc))]
    rfl

/-! ## Whole eliminations -/

def reduceFrom (sweep : Sweep) (k : ℕ) (work : DenseMatrix α) : ℕ → Run α (DenseMatrix α)
  | 0 => return work
  | left + 1 => do
    let reduced ← reduceColumn work k sweep
    reduceFrom sweep (k + 1) reduced left

theorem reduceFrom_eq (sweep : Sweep) {left : ℕ} (hrows : k + left ≤ work.rows)
    (hcols : work.rows ≤ work.cols) :
    reduceFrom sweep k work left = Run.of (work.reduceFrom sweep k left) := by
  induction left generalizing k work with
  | zero => rfl
  | succ left ih =>
    refine Run.bind_eq (reduceColumn_eq sweep (by omega) (by omega)) fun reduced hreduced => ?_
    rw [DenseMatrix.reduceColumn_eq] at hreduced
    split_ifs at hreduced
    cases hreduced
    exact ih (by rw [rows_reduced]; omega) hcols

def reduce (work : DenseMatrix α) (sweep : Sweep) : Run α (DenseMatrix α) :=
  reduceFrom sweep 0 work work.rows

theorem reduce_eq (sweep : Sweep) (hcols : work.rows ≤ work.cols) :
    reduce work sweep = Run.of (work.reduce sweep) :=
  reduceFrom_eq sweep (Nat.zero_add _).le hcols

/-! ## Inverses -/

/-- Each row of coefficients is copied into a row of zeros, and a one is written to its right. -/
def besideIdentity (m : DenseMatrix α) : Guarded (DenseMatrix α) :=
  (List.range' 0 m.rows).foldlM (fun work i => do
    let cells ← outOfRange (work.row i)
    let target ← slice cells 0 m.rows
    let coefficients ← outOfRange (m.row i)
    require (target.length = coefficients.length) (.lengths target.length coefficients.length)
    let work ← outOfRange (work.setRow i coefficients)
    write work i (m.rows + i) 1) (zeros m.rows (2 * m.rows))

/-- The rows above row `i` are filled in. -/
def besideIdentityBefore (m : DenseMatrix α) (i : ℕ) : DenseMatrix α :=
  ofFn m.rows (2 * m.rows) fun row j => if row < i then m.besideIdentity.entry row j else 0

theorem entry_besideIdentityBefore {i row j : ℕ} (hrow : row < m.rows) (hj : j < 2 * m.rows) :
    (besideIdentityBefore m i).entry row j =
      if row < i then m.besideIdentity.entry row j else 0 :=
  entry_ofFn _ hrow hj

theorem besideIdentityBefore_zero (m : DenseMatrix α) :
    besideIdentityBefore m 0 = zeros m.rows (2 * m.rows) := by
  simp [zeros, besideIdentityBefore]

theorem besideIdentityBefore_rows (m : DenseMatrix α) :
    besideIdentityBefore m m.rows = m.besideIdentity := by
  refine ext_entry rfl rfl ?_
  intro i (hi : i < m.rows) j (hj : j < 2 * m.rows)
  rw [entry_besideIdentityBefore hi hj, if_pos hi]

theorem setRow_eq {i : ℕ} (values : List α) (hi : i < m.rows) :
    outOfRange (m.setRow i values) =
      .ok (m.replaceCells i 0 values.length fun j => values.getD j 0) := by
  rw [outOfRange, setRow, checkRow, if_pos hi]
  refine congrArg Except.ok (ext_entry rfl rfl ?_)
  intro row (hrow : row < m.rows) j (hj : j < m.cols)
  rw [entry_ofFn _ hrow hj, entry_replaceCells hrow hj]
  by_cases hr : row = i
  · by_cases hlt : j < values.length
    · simp [hr, hlt]
    · simp [hr, hlt, List.getD_eq_getElem?_getD]
  · simp [hr]

theorem besideIdentityBefore_succ {i : ℕ} (hcols : m.cols = m.rows) :
    ((besideIdentityBefore m i).replaceCells i 0 m.rows fun j =>
      ((List.range m.cols).map (m.entry i)).getD j 0).replaceCells i (m.rows + i) (m.rows + i + 1)
        (fun _ => 1) = besideIdentityBefore m (i + 1) := by
  refine ext_entry rfl rfl ?_
  intro row (hrow : row < m.rows) j (hj : j < 2 * m.rows)
  rw [entry_replaceCells (by exact hrow) (by exact hj),
    entry_replaceCells (by exact hrow) (by exact hj), entry_besideIdentityBefore hrow hj,
    entry_besideIdentityBefore hrow hj]
  rcases lt_trichotomy row i with hlt | rfl | hgt
  · rw [if_neg (by omega), if_neg (by omega), if_pos hlt, if_pos (by omega)]
  · have hentry : m.besideIdentity.entry row j =
        if j < m.rows then m.entry row j else if j = m.rows + row then 1 else 0 :=
      entry_ofFn _ hrow hj
    rw [if_pos (Nat.lt_succ_self _), hentry]
    by_cases hleft : j < m.rows
    · rw [if_neg (by omega), if_pos (by omega), if_pos hleft]
      simp [hcols, hleft]
    · rw [if_neg hleft]
      refine if_congr (by omega) rfl ?_
      rw [if_neg (by omega), if_neg (by omega)]
  · rw [if_neg (by omega), if_neg (by omega), if_neg (by omega), if_neg (by omega)]

theorem besideIdentity_eq (hsquare : m.isSquare = true) :
    besideIdentity m = .ok m.besideIdentity := by
  have hcols : m.cols = m.rows := (beq_iff_eq.mp hsquare).symm
  apply loop_eq (besideIdentityBefore m) (besideIdentityBefore_zero m)
    (by rw [Nat.zero_add, besideIdentityBefore_rows])
  intro i _ hi
  rw [Nat.zero_add] at hi
  have hrow : outOfRange ((besideIdentityBefore m i).row i) =
      .ok ((List.range (2 * m.rows)).map ((besideIdentityBefore m i).entry i)) := row_eq hi
  have hset : outOfRange ((besideIdentityBefore m i).setRow i
      ((List.range m.cols).map (m.entry i))) =
        .ok ((besideIdentityBefore m i).replaceCells i 0 m.rows
          fun j => ((List.range m.cols).map (m.entry i)).getD j 0) := by
    have hset := setRow_eq (m := besideIdentityBefore m i)
      ((List.range m.cols).map (m.entry i)) hi
    rw [List.length_map, List.length_range, hcols] at hset
    rw [hcols]
    exact hset
  have hone : m.rows + i < (besideIdentityBefore m i).cols := by
    change m.rows + i < 2 * m.rows
    omega
  rw [hrow, ok_bind, slice_zero (by simp; omega), ok_bind, row_eq hi, ok_bind,
    require_of (by simp [hcols]; omega), ok_bind, hset, ok_bind, write,
    require_of ⟨hi, hone⟩, ok_bind, ← besideIdentityBefore_succ hcols]
  rfl

def invert (m : DenseMatrix α) : Run α (DenseMatrix α) := do
  Run.of (.ofExcept m.checkSquare)
  let start ← Run.guarded (besideIdentity m)
  Run.of (.record (.snapshot .initial start))
  let reduced ← reduce start .all
  let inverse ← Run.fallible (block reduced 0 m.rows m.rows m.rows)
  Run.of (.record (.inverse inverse))
  return inverse

theorem invert_eq (m : DenseMatrix α) : invert m = Run.of m.invert := by
  refine Run.bind_eq rfl fun _ hcheck => ?_
  have hsquare : m.isSquare = true := by
    by_contra hne
    change m.checkSquare = _ at hcheck
    rw [checkSquare, if_neg hne] at hcheck
    cases hcheck
  rw [Run.guarded_bind (besideIdentity_eq hsquare)]
  refine Run.bind_eq rfl fun _ _ => ?_
  have hcols : m.besideIdentity.rows ≤ m.besideIdentity.cols := by
    change m.rows ≤ 2 * m.rows
    omega
  refine Run.bind_eq (reduce_eq .all hcols) fun reduced _ => ?_
  refine Run.bind_eq (Run.fallible_eq (block_eq _ _ _ _ _)) fun _ _ => rfl

end DenseSystem.Guarded
