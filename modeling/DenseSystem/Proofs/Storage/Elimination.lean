import Mathlib.Tactic
import DenseSystem.Inverse
import DenseSystem.Proofs.Guarded.Elimination
import DenseSystem.Proofs.Solver.Course
import DenseSystem.Proofs.Storage.Construction
import DenseSystem.Proofs.Storage.Writing

/-! # Eliminations in memory

The working matrix of an elimination is changed in place, entry by entry and row by row. What is in
memory after each of the loops is the matrix that the elimination has come to, and an inverse is a
block of the last one.
-/
namespace DenseSystem.Storage

open Change DenseMatrix

variable {α : Type} [Scalar α]

/-- The search for the largest magnitude keeps the best value along with its row. -/
def pivotRow (s : Storage α) (col first : ℕ) : Except Fault ℕ := do
  guarded (Guarded.require (first < s.rows ∧ col < s.cols)
    (.outOfRange (.pivotSearch first col s.rows s.cols)))
  let start ← s.index first col
  let below := List.range' (first + 1) (s.rows - (first + 1))
  let (best, _) ← below.foldlM (fun (best, largest) i => do
    let value ← s.index i col
    return if Scalar.lt largest (Scalar.abs value) then (i, Scalar.abs value) else (best, largest))
    (first, Scalar.abs start)
  return best

def subtractRow (target source : ℕ) (factor : α) (col : ℕ) : Change α Unit := do
  let cols ← reading fun s => .ok s.cols
  (List.range' col (cols - col)).forM fun j => do
    let subtrahend ← reading (·.index source j)
    let minuend ← reading (·.index target j)
    assign target j (minuend - factor * subtrahend)

/-- Column `k` cleared in row `i`, unless that is the pivot row or holds a zero there. -/
def clearRow (k i : ℕ) : Change α Unit :=
  if i = k then return
  else do
    let factor ← reading (·.index i k)
    if Scalar.isZero factor then return
    else
      subtractRow i k factor k
      assign i k 0

def Rewrite.divide (k : ℕ) (pivot : α) : Rewrite α where
  apply xs := xs.take k ++ (xs.drop k).map (· / pivot)
  length_apply xs := by
    rw [List.length_append, List.length_map, ← List.length_append, List.take_append_drop]

def normalizeRow (k : ℕ) (pivot : α) : Change α Unit := do
  let cells ← reading (·.row k)
  let _ ← reading fun _ => guarded (Guarded.slice cells k cells.length)
  rowMut k (.divide k pivot)
  assign k k 1

def clearColumn (k : ℕ) (sweep : Sweep) : Change α Unit := do
  let rows ← reading fun s => .ok s.rows
  (List.range' (Guarded.firstTarget k sweep) (rows - Guarded.firstTarget k sweep)).forM (clearRow k)

def bringUp (p k : ℕ) : Change α Unit := if p = k then pure () else swapRows p k

def reduceColumn (sweep : Sweep) (k : ℕ) : Change α Unit := do
  let p ← reading (pivotRow · k k)
  let pivot ← reading (·.index p k)
  if isNearZero pivot then reading fun _ => .error (.error (.zeroPivot k))
  else
    bringUp p k
    normalizeRow k pivot
    clearColumn k sweep

/-- A row of coefficients copied into a row of twice the length, and a one written to its right. -/
def Rewrite.besideOne (coefficients : List α) (position : ℕ) : Rewrite α where
  apply xs := ((overwrite coefficients).apply xs).set position 1
  length_apply xs := by rw [List.length_set, (overwrite coefficients).length_apply]

def placeBesideOne (s : Storage α) (i : ℕ) : Change α Unit := do
  let cells ← reading (·.row i)
  let target ← reading fun _ => guarded (Guarded.slice cells 0 s.rows)
  let coefficients ← reading fun _ => s.row i
  reading fun _ => guarded (Guarded.require (target.length = coefficients.length)
    (.lengths target.length coefficients.length))
  let _ ← reading fun _ => guarded (Guarded.item cells (s.rows + i))
  rowMut i (.besideOne coefficients (s.rows + i))

/-- The working matrix is a matrix of its own, of which the right half is returned. -/
def inverse (s : Storage α) : Except Fault (Storage α) :=
  if s.rows ≠ s.cols then .error (.error (.notSquare s.rows s.cols))
  else do
    let (outcome, work) := run (do
      (List.range' 0 s.rows).forM s.placeBesideOne
      (List.range' 0 s.rows).forM (reduceColumn .all)) (zeros s.rows (2 * s.rows))
    outcome
    work.block 0 s.rows s.rows s.rows

/-! ## Loops -/

variable {m : DenseMatrix α} {i j k : ℕ} {sweep : Sweep}

omit [Scalar α] in
theorem run_forM {body : ℕ → Change α Unit} (state : ℕ → DenseMatrix α) {first last : DenseMatrix α}
    {start count : ℕ} (hfirst : state start = first) (hlast : state (start + count) = last)
    (h : ∀ i, start ≤ i → i < start + count →
      run (body i) (state i).storage = (.ok (), (state (i + 1)).storage)) :
    run ((List.range' start count).forM body) first.storage = (.ok (), last.storage) := by
  induction count generalizing start first with
  | zero =>
    rw [← hfirst, ← hlast]
    rfl
  | succ count ih =>
    rw [List.range'_succ, ← hfirst]
    refine (run_bind_of_ok (h start le_rfl (by omega)) _).trans (ih rfl ?_ ?_)
    · rw [Nat.add_right_comm]
      exact hlast
    · exact fun i hi hlt => h i (by omega) (by omega)

theorem pivotRow_storage {col first : ℕ} (hfirst : first < m.rows) (hcol : col < m.cols) :
    pivotRow m.storage col first = .ok (m.pivotRow col first) := by
  have hread : ∀ i ∈ List.range' (first + 1) (m.rows - (first + 1)),
      m.storage.index i col = .ok (m.entry i col) :=
    fun i hi => index_storage (Guarded.lt_rows_of_mem_range' hi) hcol
  obtain ⟨largest, hlargest⟩ := Guarded.pivotSearch_eq (fun i => m.storage.index i col) first hread
  rw [pivotRow, Guarded.require_of ⟨hfirst, hcol⟩, index_storage hfirst hcol]
  exact congrArg (fun found : Except Fault (ℕ × α) => found >>= fun (best, _) => .ok best) hlargest

theorem run_subtractRow {target source col : ℕ} (factor : α) (ht : target < m.rows)
    (hs : source < m.rows) (hcol : col ≤ m.cols) :
    run (subtractRow target source factor col) m.storage =
      (.ok (), (m.replaceCells target col m.cols fun j =>
        m.entry target j - factor * m.entry source j).storage) := by
  refine (run_reading_bind_of_ok rfl _).trans ?_
  apply run_forM (fun j => m.replaceCells target col j fun j =>
    m.entry target j - factor * m.entry source j) replaceCells_self
  · rw [cols_storage, Nat.add_sub_cancel' hcol]
  · intro j hj hlt
    rw [cols_storage, Nat.add_sub_cancel' hcol] at hlt
    set work := m.replaceCells target col j fun j => m.entry target j - factor * m.entry source j
      with hwork
    have hsource : work.storage.index source j = .ok (m.entry source j) := by
      rw [index_storage (by exact hs) (by exact hlt), hwork, entry_replaceCells hs hlt,
        if_neg (by omega)]
    have htarget : work.storage.index target j = .ok (m.entry target j) := by
      rw [index_storage (by exact ht) (by exact hlt), hwork, entry_replaceCells ht hlt,
        if_neg (by omega)]
    rw [run_reading_bind_of_ok hsource, run_reading_bind_of_ok htarget,
      run_assign (by exact ht) (by exact hlt), ← replaceCells_succ hj]

theorem run_eliminateRow {target source col : ℕ} (factor : α) (ht : target < m.rows)
    (hs : source < m.rows) (hcol : col < m.cols) :
    run (do
      subtractRow target source factor col
      assign target col 0) m.storage =
        (.ok (), (m.eliminateRow target source col factor).storage) := by
  rw [run_bind_of_ok (run_subtractRow factor ht hs hcol.le),
    run_assign (by exact ht) (by exact hcol), Guarded.replaceCells_eq_eliminateRow]

theorem run_clearColumn (hk : k < m.rows) (hkc : k < m.cols) :
    run (clearColumn k sweep) m.storage = (.ok (), (m.clearColumn k sweep).storage) := by
  have hfirst : Guarded.firstTarget k sweep ≤ m.rows := by
    cases sweep with
    | below => exact hk
    | all => exact Nat.zero_le _
  refine (run_reading_bind_of_ok rfl _).trans ?_
  apply run_forM (fun i => (Guarded.clearedBefore m k sweep i).1)
  · rw [Guarded.clearedBefore_firstTarget]
  · rw [rows_storage, Nat.add_sub_cancel' hfirst, Guarded.clearedBefore_rows]
  intro i hi hlt
  rw [rows_storage, Nat.add_sub_cancel' hfirst] at hlt
  -- The factor is read from a matrix whose upper rows have changed already; row `i` has not.
  have hread : (Guarded.clearedBefore m k sweep i).1.storage.index i k = .ok (m.entry i k) := by
    rw [index_storage (by exact hlt) (by exact hkc)]
    exact congrArg Except.ok (entry_clearRows_of_notMem hlt hkc (Guarded.notMem_targetsBefore i))
  rw [clearRow]
  by_cases hik : i = k
  · subst hik
    rw [if_pos rfl, Guarded.clearedBefore_succ_of_not_isTarget (isTarget_self m i sweep)]
    rfl
  · have htarget := Guarded.isTarget_of_firstTarget_le hi hik (m := m)
    rw [if_neg hik, run_reading_bind_of_ok hread]
    cases hzero : Scalar.isZero (m.entry i k) with
    | true =>
      rw [hzero] at htarget
      rw [if_pos rfl, Guarded.clearedBefore_succ_of_not_isTarget htarget]
      rfl
    | false =>
      rw [hzero] at htarget
      rw [if_neg Bool.false_ne_true, Guarded.clearedBefore_succ_of_isTarget hk htarget]
      exact run_eliminateRow (m.entry i k) hlt hk hkc

theorem apply_divide {n k : ℕ} {pivot : α} (cells : ℕ → α) :
    (Rewrite.divide k pivot).apply ((List.range n).map cells) =
      (List.range n).map fun j => if j < k then cells j else cells j / pivot := by
  refine List.ext_getElem ?_ fun j hj hj' => ?_
  · rw [(Rewrite.divide k pivot).length_apply, List.length_map, List.length_map]
  · have hn : j < n := by simpa using hj'
    by_cases h : j < k
    · simp [Rewrite.divide, h, hn]
    · have hk : min k n = k := by omega
      simp [Rewrite.divide, List.getElem_append, h, hk, Nat.add_sub_cancel' (not_lt.mp h)]

theorem run_normalizeRow (pivot : α) (hk : k < m.rows) (hkc : k < m.cols) :
    run (normalizeRow k pivot) m.storage = (.ok (), (m.normalizeRow k pivot).storage) := by
  have hdivided : rewriteRow m k (.divide k pivot) =
      m.replaceCells k k m.cols fun j => m.entry k j / pivot := by
    rw [rewriteRow_eq (apply_divide (m.entry k))]
    refine ext_entry rfl rfl fun i (hi : i < m.rows) j (hj : j < m.cols) => ?_
    rw [entry_replaceCells hi hj, entry_replaceCells hi hj]
    by_cases hleft : j < k
    · have houtside : ¬ (i = k ∧ k ≤ j ∧ j < m.cols) := by omega
      rw [if_neg houtside, if_pos hleft]
      split_ifs with h
      · rw [h.1]
      · rfl
    · rw [if_neg hleft]
      exact if_congr (by omega) rfl rfl
  rw [normalizeRow, run_reading_bind_of_ok (row_storage_of_lt hk)]
  refine (run_reading_bind_of_ok (congrArg guarded (Guarded.slice_eq ?_ le_rfl)) _).trans ?_
  · simpa using hkc.le
  · rw [run_bind_of_ok (run_rowMut_of_lt hk _), hdivided, ← Guarded.replaceCells_eq_normalizeRow]
    exact run_assign (by exact hk) (by exact hkc) 1

/-! ## Columns -/

theorem run_bringUp {p : ℕ} (hk : k < m.rows) (hp : p < m.rows) :
    run (bringUp p k) m.storage = (.ok (), (m.exchangeRows k p).storage) := by
  rw [bringUp]
  by_cases hpk : p = k
  · rw [if_pos hpk, hpk, exchangeRows_self]
    rfl
  · rw [if_neg hpk, run_swapRows, DenseMatrix.swapRows, if_pos ⟨hp, hk⟩, exchangeRows_comm]
    rfl

/-- A column that offers no pivot leaves the working matrix as it was. -/
theorem run_reduceColumn (sweep : Sweep) (hk : k < m.rows) (hkc : k < m.cols) :
    run (reduceColumn sweep k) m.storage =
      applied m ((m.reduceColumn k sweep).outcome.mapError .error) := by
  have hp := m.pivotRow_lt k hk
  rw [DenseMatrix.reduceColumn_eq, reduceColumn, run_reading_bind_of_ok (pivotRow_storage hk hkc),
    run_reading_bind_of_ok (index_storage hp hkc)]
  change run (if isNearZero (m.pivot k) = true then _ else _) _ = _
  cases hzero : isNearZero (m.pivot k) with
  | true => rfl
  | false =>
    have hnormal : run (normalizeRow k (m.entry (m.pivotRow k k) k))
        (m.exchangeRows k (m.pivotRow k k)).storage = (.ok (), (m.normalized k).storage) :=
      run_normalizeRow (m.pivot k) hk hkc
    rw [if_neg Bool.false_ne_true, if_neg Bool.false_ne_true, run_bind_of_ok (run_bringUp hk hp),
      run_bind_of_ok hnormal, run_clearColumn (by exact hk) (by exact hkc)]
    rfl

/-- The columns from `k` on end as the elimination does, and if it succeeds its result is in
memory. -/
theorem run_reduceFrom (sweep : Sweep) {left : ℕ} (hrows : k + left ≤ m.rows)
    (hcols : m.rows ≤ m.cols) :
    ∃ s, run ((List.range' k left).forM (reduceColumn sweep)) m.storage =
        (((m.reduceFrom sweep k left).outcome.map fun _ => ()).mapError .error, s) ∧
      ∀ result, (m.reduceFrom sweep k left).outcome = .ok result → s = result.storage := by
  induction left generalizing k m with
  | zero => exact ⟨m.storage, rfl, fun result h => by cases h; rfl⟩
  | succ left ih =>
    have hcolumn := run_reduceColumn (m := m) (k := k) sweep (by omega) (by omega)
    rw [DenseMatrix.reduceColumn_eq] at hcolumn
    rw [List.range'_succ, reduceFrom_succ]
    change ∃ s, run (reduceColumn sweep k >>= fun _ => (List.range' (k + 1) left).forM _) _ = _ ∧ _
    cases hzero : isNearZero (m.pivot k) with
    | true =>
      rw [hzero] at hcolumn
      rw [run_bind_of_error hcolumn, if_pos rfl]
      exact ⟨m.storage, rfl, fun result h => by cases h⟩
    | false =>
      rw [hzero] at hcolumn
      rw [run_bind_of_ok hcolumn, if_neg Bool.false_ne_true]
      exact ih (by rw [rows_reduced]; omega) hcols

/-! ## Inverses -/

theorem apply_besideOne {n : ℕ} (i : ℕ) (coefficients : ℕ → α) :
    (Rewrite.besideOne ((List.range n).map coefficients) (n + i)).apply
        ((List.range (2 * n)).map fun _ => 0) =
      (List.range (2 * n)).map fun j =>
        if j < n then coefficients j else if j = n + i then 1 else 0 := by
  have hlength : 0 + ((List.range n).map coefficients).length ≤
      ((List.range (2 * n)).map fun _ => (0 : α)).length := by
    simp
    omega
  have happly : (Rewrite.besideOne ((List.range n).map coefficients) (n + i)).apply
      ((List.range (2 * n)).map fun _ => 0) =
        (splice ((List.range (2 * n)).map fun _ => 0) 0 ((List.range n).map coefficients)).set
          (n + i) 1 :=
    congrArg (List.set · (n + i) 1) (apply_overwrite (by omega))
  refine List.ext_getElem (by rw [Rewrite.length_apply]; simp) fun j hj hj' => ?_
  have hlt : j < 2 * n := by simpa using hj'
  rw [← Option.some_inj, ← List.getElem?_eq_getElem, ← List.getElem?_eq_getElem, happly,
    List.getElem?_set, getElem?_splice hlength, length_splice hlength]
  by_cases hone : n + i = j
  · subst hone
    simp [hlt]
  · by_cases hleft : j < n
    · simp [hone, hleft, hlt]
    · simp [hone, Ne.symm hone, hleft, hlt]

theorem run_placeBesideOne (hcols : m.cols = m.rows) (hi : i < m.rows) :
    run (placeBesideOne m.storage i) (Guarded.besideIdentityBefore m i).storage =
      (.ok (), (Guarded.besideIdentityBefore m (i + 1)).storage) := by
  have hzero : (List.range (2 * m.rows)).map ((Guarded.besideIdentityBefore m i).entry i) =
      (List.range (2 * m.rows)).map fun _ => 0 := by
    apply List.map_congr_left
    intro j hj
    rw [Guarded.entry_besideIdentityBefore hi (List.mem_range.mp hj), if_neg (lt_irrefl i)]
  have hrow : (Guarded.besideIdentityBefore m i).storage.row i =
      .ok ((List.range (2 * m.rows)).map fun _ => 0) :=
    (row_storage_of_lt (m := Guarded.besideIdentityBefore m i) hi).trans (congrArg Except.ok hzero)
  have hsource : m.storage.row i = .ok ((List.range m.rows).map (m.entry i)) :=
    (row_storage_of_lt hi).trans (by rw [hcols])
  have hnext : rewriteRow (Guarded.besideIdentityBefore m i) i
      (.besideOne ((List.range m.rows).map (m.entry i)) (m.rows + i)) =
        Guarded.besideIdentityBefore m (i + 1) := by
    have happly := apply_besideOne (n := m.rows) i (m.entry i)
    rw [← hzero] at happly
    rw [rewriteRow_eq happly]
    refine ext_entry rfl rfl fun row (hrow : row < m.rows) j (hj : j < 2 * m.rows) => ?_
    have hentry : m.besideIdentity.entry row j =
        if j < m.rows then m.entry row j else if j = m.rows + row then 1 else 0 :=
      entry_ofFn _ hrow hj
    rw [entry_replaceCells (by exact hrow) (by exact hj),
      Guarded.entry_besideIdentityBefore hrow hj, Guarded.entry_besideIdentityBefore hrow hj,
      hentry]
    rcases lt_trichotomy row i with hlt | rfl | hgt
    · rw [if_neg (by omega), if_pos hlt, if_pos (Nat.lt_succ_of_lt hlt)]
    · rw [if_pos ⟨rfl, Nat.zero_le _, hj⟩, if_pos (Nat.lt_succ_self _)]
    · rw [if_neg (by omega), if_neg (by omega), if_neg (by omega)]
  have hlength : ((List.range (2 * m.rows)).map fun _ => (0 : α)).length = 2 * m.rows := by simp
  have htarget : Guarded.slice ((List.range (2 * m.rows)).map fun _ => (0 : α)) 0 m.rows =
      .ok (((List.range (2 * m.rows)).map fun _ => (0 : α)).take m.rows) :=
    Guarded.slice_zero (by omega)
  have hfits : (((List.range (2 * m.rows)).map fun _ => (0 : α)).take m.rows).length =
      ((List.range m.rows).map (m.entry i)).length := by
    simp
    omega
  have hone : Guarded.item ((List.range (2 * m.rows)).map fun _ => (0 : α)) (m.rows + i) =
      .ok 0 := by
    rw [Guarded.item_eq (by omega)]
    simp
  rw [placeBesideOne, run_reading_bind_of_ok hrow,
    run_reading_bind_of_ok (congrArg guarded htarget), run_reading_bind_of_ok hsource,
    run_reading_bind_of_ok (congrArg guarded (Guarded.require_of hfits _)),
    run_reading_bind_of_ok (congrArg guarded hone), rows_storage, run_rowMut_of_lt (by exact hi),
    hnext]

theorem inverse_storage (hwords : m.rows * (2 * m.rows) < Guarded.wordCount) :
    inverse m.storage = stored m.inverse := by
  rw [inverse, DenseMatrix.inverse]
  by_cases hsquare : m.isSquare = true
  · have hcols : m.rows = m.cols := beq_iff_eq.mp hsquare
    have hrows : ¬ m.storage.rows ≠ m.storage.cols := not_not.mpr hcols
    have hplaced : run ((List.range' 0 m.rows).forM (placeBesideOne m.storage))
        (zeros m.rows (2 * m.rows)) = (.ok (), m.besideIdentity.storage) := by
      rw [zeros_eq hwords]
      apply run_forM (Guarded.besideIdentityBefore m)
      · exact Guarded.besideIdentityBefore_zero m
      · rw [Nat.zero_add, Guarded.besideIdentityBefore_rows]
      · exact fun i _ hi => run_placeBesideOne hcols.symm (by omega)
    obtain ⟨s, hrun, hs⟩ := run_reduceFrom (m := m.besideIdentity) (k := 0) .all
      (Nat.zero_add m.rows).le (by change m.rows ≤ 2 * m.rows; omega)
    rw [if_neg hrows, rows_storage, run_bind_of_ok hplaced]
    change (do
      let (outcome, work) := run ((List.range' 0 m.rows).forM (reduceColumn .all))
        m.besideIdentity.storage
      outcome
      work.block 0 m.rows m.rows m.rows) = _
    rw [hrun]
    cases hreduce : (m.besideIdentity.reduceFrom .all 0 m.rows).outcome with
    | error e =>
      rw [invert_of_error hsquare hreduce]
      rfl
    | ok work =>
      have hshape : work.rows = m.rows ∧ work.cols = 2 * m.rows := rows_of_reduce hreduce
      have hwords' : work.rows * work.cols < Guarded.wordCount := by rwa [hshape.1, hshape.2]
      have htwice : m.rows + m.rows < Guarded.wordCount := by
        rcases Nat.eq_zero_or_pos m.rows with hzero | hpos
        · rw [hzero]
          decide
        · have := Nat.le_mul_of_pos_left (2 * m.rows) hpos
          omega
      rw [hs work hreduce, invert_of_reduce hsquare hreduce]
      change work.storage.block 0 m.rows m.rows m.rows = _
      rw [block_storage hwords' (by omega) htwice, block_eq_rightHalf hshape.1 hshape.2]
  · have hrows : m.storage.rows ≠ m.storage.cols := fun h => hsquare (beq_iff_eq.mpr h)
    rw [if_pos hrows, invert, checkSquare, if_neg hsquare]
    rfl

end DenseSystem.Storage
