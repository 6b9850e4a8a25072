import Mathlib.Tactic
import DenseSystem.DenseMatrix.Edit
import DenseSystem.Proofs.Storage.Basic

/-! # Writes to a matrix in memory

A call that changes a matrix carries it along, and what it has changed when it fails stays changed.
So it is a matter of proof that a call which fails has changed nothing, and that one which succeeds
has changed no other cells than it should.
-/
namespace DenseSystem

namespace Storage

variable {α β γ : Type}

/-- A call that may change a matrix. What it has changed when it fails stays changed. -/
abbrev Change (α β : Type) : Type := ExceptT Fault (StateM (Storage α)) β

namespace Change

def run (x : Change α β) (s : Storage α) : Except Fault β × Storage α :=
  StateT.run (ExceptT.run x) s

def reading (f : Storage α → Except Fault β) : Change α β := ExceptT.mk fun s => (f s, s)

def writing (f : Storage α → List α) : Change α Unit := modify fun s => { s with data := f s }

theorem run_bind_of_ok {x : Change α β} {s s' : Storage α} {b : β} (h : run x s = (.ok b, s'))
    (f : β → Change α γ) : run (x >>= f) s = run (f b) s' := by
  rw [run] at h
  rw [run, ExceptT.run_bind, StateT.run_bind, h]
  rfl

theorem run_bind_of_error {x : Change α β} {s s' : Storage α} {e : Fault}
    (h : run x s = (.error e, s')) (f : β → Change α γ) : run (x >>= f) s = (.error e, s') := by
  rw [run] at h
  rw [run, ExceptT.run_bind, StateT.run_bind, h]
  rfl

theorem run_reading_bind_of_ok {f : Storage α → Except Fault β} {s : Storage α} {b : β}
    (h : f s = .ok b) (g : β → Change α γ) : run (reading f >>= g) s = run (g b) s :=
  run_bind_of_ok (congrArg (·, s) h) g

theorem run_reading_bind_of_error {f : Storage α → Except Fault β} {s : Storage α} {e : Fault}
    (h : f s = .error e) (g : β → Change α γ) : run (reading f >>= g) s = (.error e, s) :=
  run_bind_of_error (congrArg (·, s) h) g

end Change

open Change

def store (flat : ℕ) (value : α) : Change α Unit := do
  let _ ← reading fun s => guarded (Guarded.item s.data flat)
  writing fun s => s.data.set flat value

def set (row col : ℕ) (value : α) : Change α Unit := do
  let flat ← reading (·.flatIndex row col)
  store flat value

/-- An assignment to a position that is not compared with the dimensions. -/
def assign (row col : ℕ) (value : α) : Change α Unit := do
  let flat ← reading fun s => .ok (row * s.cols + col)
  store flat value

/-- What can be done to a slice: its items change, but not their number. -/
structure Rewrite (α : Type) where
  apply : List α → List α
  length_apply : ∀ xs, (apply xs).length = xs.length

def splice (xs : List α) (first : ℕ) (ys : List α) : List α :=
  xs.take first ++ ys ++ xs.drop (first + ys.length)

/-- The first items overwritten by others, as far as both lists go. -/
def Rewrite.overwrite (ys : List α) : Rewrite α where
  apply xs := splice xs 0 (ys.take xs.length)
  length_apply xs := by simp [splice]

def Rewrite.fill (value : α) : Rewrite α where
  apply xs := List.replicate xs.length value
  length_apply _ := List.length_replicate

def rowMut (i : ℕ) (f : Rewrite α) : Change α Unit := do
  let cells ← reading (·.row i)
  writing fun s => splice s.data (i * s.cols) (f.apply cells)

def asMutSlice (f : Rewrite α) : Change α Unit := writing fun s => f.apply s.data

/-- Two rows exchanged. The data are split in front of the lower row, and a slice of the first part
changes places with the head of the second. -/
def exchange (upper lower : ℕ) : Change α Unit := do
  let (head, tail) ← reading fun s => do
    guarded (Guarded.require (lower * s.cols ≤ s.data.length)
      (.slice 0 (lower * s.cols) s.data.length))
    return (s.data.take (lower * s.cols), s.data.drop (lower * s.cols))
  let above ← reading fun s =>
    guarded (Guarded.slice head (upper * s.cols) ((upper + 1) * s.cols))
  let below ← reading fun s => guarded (Guarded.slice tail 0 s.cols)
  reading fun _ => guarded (Guarded.require (above.length = below.length)
    (.lengths above.length below.length))
  writing fun s => splice head (upper * s.cols) below ++ splice tail 0 above

def swapRows (first second : ℕ) : Change α Unit := do
  reading fun s => guarded (Guarded.require (first < s.rows ∧ second < s.rows)
    (.outOfRange (.swap first second s.rows)))
  if first = second then return
  else if first < second then exchange first second
  else exchange second first

/-- The outcome of a change that leaves nothing behind when it fails. -/
def applied (m : DenseMatrix α) (x : Except Fault (DenseMatrix α)) :
    Except Fault Unit × Storage α :=
  match x with
  | .ok changed => (.ok (), changed.storage)
  | .error e => (.error e, m.storage)

/-! ## Parts of lists -/

theorem length_splice {xs ys : List α} {first : ℕ} (h : first + ys.length ≤ xs.length) :
    (splice xs first ys).length = xs.length := by
  simp only [splice, List.length_append, List.length_take, List.length_drop]
  omega

theorem getElem?_splice {xs ys : List α} {first k : ℕ} (h : first + ys.length ≤ xs.length) :
    (splice xs first ys)[k]? =
      if first ≤ k ∧ k < first + ys.length then ys[k - first]? else xs[k]? := by
  have htake : (xs.take first).length = first := List.length_take_of_le (by omega)
  rw [splice, List.append_assoc]
  rcases lt_or_ge k first with hlt | hge
  · rw [if_neg (by omega), List.getElem?_append_left (by omega), List.getElem?_take_of_lt hlt]
  · rw [List.getElem?_append_right (by omega), htake]
    by_cases hin : k - first < ys.length
    · rw [if_pos (by omega), List.getElem?_append_left hin]
    · rw [if_neg (by omega), List.getElem?_append_right (by omega), List.getElem?_drop]
      congr 1
      omega

/-- Two slices of one width that have changed places, the first of which ends before the second. -/
def exchangeSlices (xs : List α) (upper lower width : ℕ) : List α :=
  splice (xs.take lower) upper ((xs.drop lower).take width) ++
    splice (xs.drop lower) 0 (((xs.take lower).drop upper).take width)

section

variable {xs : List α} {upper lower width k : ℕ}

theorem length_slice_above (hupper : upper + width ≤ lower) (hlower : lower + width ≤ xs.length) :
    (((xs.take lower).drop upper).take width).length = width := by
  simp only [List.length_take, List.length_drop]
  omega

theorem length_slice_below (hlower : lower + width ≤ xs.length) :
    ((xs.drop lower).take width).length = width := by
  simp only [List.length_take, List.length_drop]
  omega

theorem slice_below_fits (hupper : upper + width ≤ lower) (hlower : lower + width ≤ xs.length) :
    upper + ((xs.drop lower).take width).length ≤ (xs.take lower).length := by
  rw [length_slice_below hlower, List.length_take]
  omega

theorem slice_above_fits (hupper : upper + width ≤ lower) (hlower : lower + width ≤ xs.length) :
    0 + (((xs.take lower).drop upper).take width).length ≤ (xs.drop lower).length := by
  rw [length_slice_above hupper hlower, List.length_drop]
  omega

theorem length_exchangeSlices (hupper : upper + width ≤ lower)
    (hlower : lower + width ≤ xs.length) :
    (exchangeSlices xs upper lower width).length = xs.length := by
  rw [exchangeSlices, List.length_append, length_splice (slice_below_fits hupper hlower),
    length_splice (slice_above_fits hupper hlower), ← List.length_append, List.take_append_drop]

theorem getElem?_exchangeSlices (hupper : upper + width ≤ lower)
    (hlower : lower + width ≤ xs.length) :
    (exchangeSlices xs upper lower width)[k]? =
      if upper ≤ k ∧ k < upper + width then xs[lower + (k - upper)]?
      else if lower ≤ k ∧ k < lower + width then xs[upper + (k - lower)]?
      else xs[k]? := by
  have habove := length_slice_above hupper hlower
  have hbelow := length_slice_below hlower
  have hhead : (xs.take lower).length = lower := List.length_take_of_le (by omega)
  have hsplice := length_splice (slice_below_fits hupper hlower)
  rw [exchangeSlices]
  rcases lt_or_ge k lower with hlt | hge
  · rw [List.getElem?_append_left (by omega), getElem?_splice (slice_below_fits hupper hlower),
      hbelow, List.getElem?_take_of_lt hlt]
    by_cases hin : upper ≤ k ∧ k < upper + width
    · rw [if_pos hin, if_pos hin, List.getElem?_take_of_lt (by omega), List.getElem?_drop]
    · rw [if_neg hin, if_neg hin, if_neg (by omega)]
  · rw [List.getElem?_append_right (by omega), hsplice, hhead,
      getElem?_splice (slice_above_fits hupper hlower), habove,
      if_neg (by omega : ¬ (upper ≤ k ∧ k < upper + width))]
    by_cases hin : k < lower + width
    · rw [if_pos (by omega), if_pos ⟨hge, hin⟩, List.getElem?_take_of_lt (by omega),
        List.getElem?_drop, List.getElem?_take_of_lt (by omega), Nat.sub_zero]
    · rw [if_neg (by omega), if_neg (by omega), List.getElem?_drop, Nat.add_sub_cancel' hge]

end

theorem apply_overwrite {xs ys : List α} (h : ys.length ≤ xs.length) :
    (Rewrite.overwrite ys).apply xs = splice xs 0 ys :=
  congrArg (splice xs 0) (List.take_of_length_le h)

theorem getD_overwrite {xs ys : List α} {k : ℕ} (hk : k < xs.length) (z : α) :
    ((Rewrite.overwrite ys).apply xs).getD k z = ys.getD k (xs.getD k z) := by
  have hlength : 0 + (ys.take xs.length).length ≤ xs.length := by
    rw [List.length_take]
    omega
  change (splice xs 0 (ys.take xs.length)).getD k z = _
  rw [List.getD_eq_getElem?_getD, getElem?_splice hlength, Nat.sub_zero,
    List.getElem?_take_of_lt hk, List.length_take]
  by_cases hlt : k < ys.length
  · rw [if_pos (by omega)]
    simp [List.getD_eq_getElem?_getD, hlt]
  · rw [if_neg (by omega)]
    simp [List.getD_eq_getElem?_getD, hlt]

theorem position_mem_row {cols i i' j : ℕ} (hj : j < cols) :
    i * cols ≤ i' * cols + j ∧ i' * cols + j < i * cols + cols ↔ i' = i := by
  constructor
  · rintro ⟨hfirst, hlast⟩
    rcases lt_trichotomy i' i with hlt | heq | hgt
    · have := DenseMatrix.mul_add_lt_mul hlt hj
      omega
    · exact heq
    · have := Nat.mul_le_mul_right cols hgt
      rw [Nat.succ_mul] at this
      omega
  · rintro rfl
    omega

/-! ## One write -/

section

variable [Scalar α] {m : DenseMatrix α} {i j : ℕ}

open DenseMatrix

theorem run_store (hi : i < m.rows) (hj : j < m.cols) (value : α) :
    run (store (i * m.cols + j) value) m.storage =
      (.ok (), (m.replaceCells i j (j + 1) fun _ => value).storage) := by
  rw [store, run_reading_bind_of_ok (item_storage hi hj)]
  exact congrArg (Except.ok (), ·) (set_storage hi hj value)

theorem run_assign (hi : i < m.rows) (hj : j < m.cols) (value : α) :
    run (assign i j value) m.storage =
      (.ok (), (m.replaceCells i j (j + 1) fun _ => value).storage) :=
  (run_reading_bind_of_ok rfl _).trans (run_store hi hj value)

theorem run_set_of_lt (hi : i < m.rows) (hj : j < m.cols) (value : α) :
    run (set i j value) m.storage =
      (.ok (), (m.replaceCells i j (j + 1) fun _ => value).storage) := by
  rw [set, run_reading_bind_of_ok (flatIndex_storage_of_lt hi hj), run_store hi hj]

theorem replaceCells_one (m : DenseMatrix α) (i j : ℕ) (value : α) :
    (m.replaceCells i j (j + 1) fun _ => value) =
      ofFn m.rows m.cols fun i' j' => if i' = i ∧ j' = j then value else m.entry i' j' := by
  unfold replaceCells
  congr 1
  funext i' j'
  exact if_congr (by omega) rfl rfl

theorem run_set (m : DenseMatrix α) (i j : ℕ) (value : α) :
    run (set i j value) m.storage = applied m ((m.set i j value).mapError .error) := by
  rw [DenseMatrix.set, checkIndex]
  by_cases h : i < m.rows ∧ j < m.cols
  · rw [run_set_of_lt h.1 h.2, replaceCells_one, if_pos h]
    rfl
  · have hflat := flatIndex_storage m i j
    rw [checkIndex, if_neg h] at hflat
    rw [if_neg h]
    exact run_reading_bind_of_error hflat _

def rewriteRow (m : DenseMatrix α) (i : ℕ) (f : Rewrite α) : DenseMatrix α :=
  m.replaceCells i 0 m.cols fun j => (f.apply ((List.range m.cols).map (m.entry i))).getD j 0

theorem rewriteRow_eq {f : Rewrite α} {value : ℕ → α}
    (h : f.apply ((List.range m.cols).map (m.entry i)) = (List.range m.cols).map value) :
    rewriteRow m i f = m.replaceCells i 0 m.cols value := by
  refine ext_entry rfl rfl fun i' (hi' : i' < m.rows) j (hj : j < m.cols) => ?_
  rw [rewriteRow, h, entry_replaceCells hi' hj, entry_replaceCells hi' hj]
  simp [hj]

theorem run_rowMut_of_lt (hi : i < m.rows) (f : Rewrite α) :
    run (rowMut i f) m.storage = (.ok (), (rewriteRow m i f).storage) := by
  rw [rowMut, run_reading_bind_of_ok (row_storage_of_lt hi)]
  have hcells : (f.apply ((List.range m.cols).map (m.entry i))).length = m.cols := by
    rw [f.length_apply, List.length_map, List.length_range]
  have hend : i * m.cols + (f.apply ((List.range m.cols).map (m.entry i))).length ≤
      m.storage.data.length := by
    have h := add_width_le hi (show 0 + m.cols ≤ m.cols by omega)
    rw [length_data_storage, hcells]
    exact h
  refine congrArg (Except.ok (), ·) (storage_eq rfl rfl ?_ ?_)
  · exact (length_splice hend).trans (length_data_storage m)
  · intro i' (hi' : i' < m.rows) j (hj : j < m.cols)
    change (splice m.storage.data (i * m.cols) _)[i' * m.cols + j]? = _
    rw [getElem?_splice hend, hcells, if_congr (position_mem_row hj) rfl rfl, rewriteRow,
      entry_replaceCells hi' hj]
    by_cases h : i' = i
    · subst h
      have hj' : j < (f.apply ((List.range m.cols).map (m.entry i'))).length := by omega
      rw [if_pos rfl, if_pos ⟨rfl, Nat.zero_le _, hj⟩, Nat.add_sub_cancel_left,
        List.getD_eq_getElem?_getD, List.getElem?_eq_getElem hj']
      rfl
    · rw [if_neg h, if_neg fun hcell => h hcell.1, getElem?_storage hi' hj]

theorem run_rowMut_of_not_lt (hi : ¬ i < m.rows) (f : Rewrite α) :
    run (rowMut i f) m.storage = (.error (.breach (.outOfRange (.row i m.rows))), m.storage) :=
  run_reading_bind_of_error (row_storage_of_not_lt hi) _

/-- What is exchanged lies on both sides of the split. -/
theorem run_exchange {upper lower : ℕ} (h : upper < lower) (hlower : lower < m.rows) :
    run (exchange upper lower) m.storage = (.ok (), (m.exchangeRows upper lower).storage) := by
  have hupper : upper * m.cols + m.cols ≤ lower * m.cols := by
    rw [← Nat.succ_mul]
    exact Nat.mul_le_mul_right _ h
  have hend : lower * m.cols + m.cols ≤ m.storage.data.length := by
    rw [length_data_storage, ← Nat.succ_mul]
    exact Nat.mul_le_mul_right _ hlower
  have hsplit : (do
      guarded (Guarded.require (lower * m.storage.cols ≤ m.storage.data.length)
        (.slice 0 (lower * m.storage.cols) m.storage.data.length))
      return (m.storage.data.take (lower * m.storage.cols),
        m.storage.data.drop (lower * m.storage.cols)) : Except Fault (List α × List α)) =
      .ok (m.storage.data.take (lower * m.cols), m.storage.data.drop (lower * m.cols)) := by
    rw [cols_storage, Guarded.require_of (by omega)]
    rfl
  have habove : Guarded.slice (m.storage.data.take (lower * m.cols)) (upper * m.cols)
      ((upper + 1) * m.cols) = .ok (((m.storage.data.take (lower * m.cols)).drop
        (upper * m.cols)).take m.cols) := by
    rw [Nat.succ_mul, Guarded.slice_eq (Nat.le_add_right _ _), Nat.add_sub_cancel_left]
    rw [List.length_take]
    omega
  have hbelow : Guarded.slice (m.storage.data.drop (lower * m.cols)) 0 m.cols =
      .ok ((m.storage.data.drop (lower * m.cols)).take m.cols) := by
    apply Guarded.slice_zero
    rw [List.length_drop]
    omega
  rw [exchange, run_reading_bind_of_ok hsplit, run_reading_bind_of_ok (congrArg guarded habove),
    run_reading_bind_of_ok (congrArg guarded hbelow),
    run_reading_bind_of_ok (congrArg guarded (Guarded.require_of
      ((length_slice_above hupper hend).trans (length_slice_below hend).symm) _))]
  refine congrArg (Except.ok (), ·) (storage_eq rfl rfl ?_ ?_)
  · exact (length_exchangeSlices hupper hend).trans (length_data_storage m)
  · intro i' (hi' : i' < m.rows) j (hj : j < m.cols)
    change (exchangeSlices m.storage.data (upper * m.cols) (lower * m.cols) m.cols)[_]? = _
    rw [getElem?_exchangeSlices hupper hend, cols_exchangeRows, if_congr (position_mem_row hj) rfl
      (if_congr (position_mem_row hj) rfl rfl), entry_exchangeRows m upper lower hi' hj]
    by_cases hi'upper : i' = upper
    · rw [if_pos hi'upper, if_pos hi'upper, hi'upper, Nat.add_sub_cancel_left,
        getElem?_storage hlower hj]
    · rw [if_neg hi'upper, if_neg hi'upper]
      by_cases hi'lower : i' = lower
      · rw [if_pos hi'lower, if_pos hi'lower, hi'lower, Nat.add_sub_cancel_left,
          getElem?_storage (h.trans hlower) hj]
      · rw [if_neg hi'lower, if_neg hi'lower, getElem?_storage hi' hj]

theorem run_swapRows (m : DenseMatrix α) (first second : ℕ) :
    run (swapRows first second) m.storage =
      applied m ((m.swapRows first second).mapError fun e => .breach (.outOfRange e)) := by
  rw [swapRows, DenseMatrix.swapRows]
  by_cases h : first < m.rows ∧ second < m.rows
  · rw [run_reading_bind_of_ok (congrArg guarded (Guarded.require_of h _)), if_pos h]
    rcases lt_trichotomy first second with hlt | rfl | hgt
    · rw [if_neg hlt.ne, if_pos hlt]
      exact run_exchange hlt h.2
    · rw [if_pos rfl, exchangeRows_self]
      rfl
    · rw [if_neg hgt.ne', if_neg hgt.not_gt, exchangeRows_comm]
      exact run_exchange hgt h.1
  · rw [run_reading_bind_of_error (congrArg guarded (if_neg h)), if_neg h]
    rfl

end

end Storage

end DenseSystem
