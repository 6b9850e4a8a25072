import Mathlib.Tactic
import DenseSystem.Proofs.Guarded.Matrix

/-! # Matrices in memory

In memory a matrix is two dimensions and a list of entries, and nothing but the care of its
operations makes them fit. The operations address the list by computed positions and by slices. They
return an error, or they are aborted where a position is not there.

The reads of a matrix whose entries fit its shape find what they are asked for, by every one of the
ways to a cell.
-/
namespace DenseSystem

@[ext]
structure Storage (α : Type) where
  rows : ℕ
  cols : ℕ
  data : List α

inductive Storage.Fault where
  | error (e : Error)
  | breach (b : Breach)

def DenseMatrix.storage {α : Type} (m : DenseMatrix α) : Storage α :=
  ⟨m.rows, m.cols, m.data.toList⟩

namespace Storage

variable {α β : Type}

def guarded (x : Guarded β) : Except Fault β := x.mapError .breach

def flatIndex (s : Storage α) (row col : ℕ) : Except Fault ℕ :=
  if s.rows ≤ row ∨ s.cols ≤ col then
    .error (.error (.indexOutOfBounds row col s.rows s.cols))
  else .ok (row * s.cols + col)

def get (s : Storage α) (row col : ℕ) : Except Fault α := do
  let flat ← s.flatIndex row col
  guarded (Guarded.item s.data flat)

/-- The entry at a position that is not compared with the dimensions. -/
def index (s : Storage α) (row col : ℕ) : Except Fault α :=
  guarded (Guarded.item s.data (row * s.cols + col))

def row (s : Storage α) (i : ℕ) : Except Fault (List α) := do
  guarded (Guarded.require (i < s.rows) (.outOfRange (.row i s.rows)))
  guarded (Guarded.slice s.data (i * s.cols) ((i + 1) * s.cols))

def column (s : Storage α) (j : ℕ) : Except Fault (List α) :=
  if s.cols ≤ j then .error (.error (.indexOutOfBounds 0 j s.rows s.cols))
  else (List.range s.rows).mapM fun i => guarded (Guarded.item s.data (i * s.cols + j))

def checkedMul (a b : ℕ) : Option ℕ := if a * b < Guarded.wordCount then some (a * b) else none

/-- A matrix from its entries. All that builds a matrix from a list of its own ends here. -/
def fromVec (data : List α) (rows cols : ℕ) : Except Fault (Storage α) :=
  if checkedMul rows cols = some data.length then .ok ⟨rows, cols, data⟩
  else .error (.error (.invalidShape rows cols .dataLength))

/-- What an addition without a check leaves in a machine word. -/
def wrap (value : ℕ) : ℕ := value % Guarded.wordCount

/-- The slices of a block one after the other, a slice for each row. -/
def block (s : Storage α) (row col rows cols : ℕ) : Except Fault (Storage α) :=
  if s.rows < wrap (row + rows) ∨ s.cols < wrap (col + cols) then
    .error (.error (.indexOutOfBounds (wrap (row + rows)) (wrap (col + cols)) s.rows s.cols))
  else do
    let data ← (List.range' row (wrap (row + rows) - row)).foldlM (fun data i => do
      let start := wrap (i * s.cols + col)
      let piece ← guarded (Guarded.slice s.data start (wrap (start + cols)))
      return data ++ piece) []
    fromVec data rows cols

end Storage

/-! ## Positions -/

namespace DenseMatrix

variable {α : Type} {m : DenseMatrix α} {i j : ℕ}

@[simp] theorem rows_storage (m : DenseMatrix α) : m.storage.rows = m.rows := rfl

@[simp] theorem cols_storage (m : DenseMatrix α) : m.storage.cols = m.cols := rfl

theorem length_data_storage (m : DenseMatrix α) : m.storage.data.length = m.rows * m.cols := by
  simp [storage, m.size_eq]

theorem exists_storage {s : Storage α} (h : s.data.length = s.rows * s.cols) :
    ∃ m : DenseMatrix α, m.storage = s :=
  ⟨⟨s.rows, s.cols, s.data.toArray, by simpa using h⟩, rfl⟩

/-- The positions of a row end before those of the next. -/
theorem mul_add_lt_mul {i i' j cols : ℕ} (h : i < i') (hj : j < cols) :
    i * cols + j < i' * cols := by
  have hle := Nat.mul_le_mul_right cols h
  rw [Nat.succ_mul] at hle
  omega

/-- Positions of entries differ unless the entries are the same. -/
theorem index_inj {cols i j i' j' : ℕ} (hj : j < cols) (hj' : j' < cols) :
    i * cols + j = i' * cols + j' ↔ i = i' ∧ j = j' := by
  constructor
  · intro h
    rcases lt_trichotomy i i' with hlt | rfl | hgt
    · have := mul_add_lt_mul hlt hj
      omega
    · exact ⟨rfl, by omega⟩
    · have := mul_add_lt_mul hgt hj'
      omega
  · rintro ⟨rfl, rfl⟩
    rfl

variable [Zero α]

theorem get_of_lt (hi : i < m.rows) (hj : j < m.cols) : m.get i j = .ok (m.entry i j) := by
  rw [get, checkIndex, if_pos ⟨hi, hj⟩]
  rfl

theorem get_of_not_lt (h : ¬ (i < m.rows ∧ j < m.cols)) :
    m.get i j = .error (.indexOutOfBounds i j m.rows m.cols) := by
  rw [get, checkIndex, if_neg h]
  rfl

theorem getElem?_storage (hi : i < m.rows) (hj : j < m.cols) :
    m.storage.data[i * m.cols + j]? = some (m.entry i j) := by
  have hk : i * m.cols + j < m.data.size := by
    rw [m.size_eq]
    exact index_lt hi hj
  simp [storage, entry, hj, Array.getD, hk]

/-- A list is the data of a matrix if it has the right entry at each position. -/
theorem storage_eq {s : Storage α} (hrows : s.rows = m.rows) (hcols : s.cols = m.cols)
    (hlength : s.data.length = m.rows * m.cols)
    (h : ∀ i < m.rows, ∀ j < m.cols, s.data[i * m.cols + j]? = some (m.entry i j)) :
    s = m.storage := by
  refine Storage.ext hrows hcols (List.ext_getElem? fun k => ?_)
  by_cases hk : k < m.rows * m.cols
  · have hpos : 0 < m.cols := Nat.pos_of_mul_pos_left (Nat.zero_lt_of_lt hk)
    have hi : k / m.cols < m.rows := (Nat.div_lt_iff_lt_mul hpos).mpr hk
    have hj : k % m.cols < m.cols := Nat.mod_lt k hpos
    have hindex : k / m.cols * m.cols + k % m.cols = k := Nat.div_add_mod' k m.cols
    rw [← hindex, h _ hi _ hj, getElem?_storage hi hj]
  · rw [List.getElem?_eq_none (by omega), List.getElem?_eq_none]
    rw [length_data_storage]
    omega

end DenseMatrix

/-! ## Reading what is there -/

namespace Storage

open DenseMatrix

variable {α : Type}

def stored (x : Except Error (DenseMatrix α)) : Except Fault (Storage α) :=
  (x.map storage).mapError .error

/-- The check of a shape is exact if the entries, or their places, are fewer than machine words. -/
theorem fromVec_eq {data : List α} {rows cols : ℕ}
    (hwords : data.length < Guarded.wordCount ∨ rows * cols < Guarded.wordCount) :
    fromVec data rows cols = stored (ofArray data.toArray rows cols) := by
  rw [fromVec, checkedMul, ofArray]
  by_cases h : data.length = rows * cols
  · rw [if_pos (by rw [if_pos (by omega), h]), dif_pos (by simpa using h)]
    rfl
  · rw [dif_neg (by simpa using h), if_neg]
    · rfl
    · intro hproduct
      split_ifs at hproduct
      exact h (Option.some.inj hproduct).symm

theorem data_of_fromVec {data : List α} {rows cols : ℕ} {s : Storage α}
    (h : fromVec data rows cols = .ok s) : s.data = data := by
  rw [fromVec] at h
  split_ifs at h
  cases h
  rfl

section

variable [Zero α] {m : DenseMatrix α} {i j : ℕ}

theorem item_storage (hi : i < m.rows) (hj : j < m.cols) :
    guarded (Guarded.item m.storage.data (i * m.cols + j)) = .ok (m.entry i j) := by
  rw [Guarded.item, getElem?_storage hi hj]
  rfl

theorem index_storage (hi : i < m.rows) (hj : j < m.cols) :
    m.storage.index i j = .ok (m.entry i j) :=
  item_storage hi hj

theorem set_storage (hi : i < m.rows) (hj : j < m.cols) (value : α) :
    (⟨m.rows, m.cols, m.storage.data.set (i * m.cols + j) value⟩ : Storage α) =
      (m.replaceCells i j (j + 1) fun _ => value).storage := by
  refine storage_eq rfl rfl ?_ ?_
  · rw [List.length_set]
    exact length_data_storage m
  · intro i' (hi' : i' < m.rows) j' (hj' : j' < m.cols)
    have hlength : i * m.cols + j < m.storage.data.length :=
      (index_lt hi hj).trans_eq (length_data_storage m).symm
    rw [entry_replaceCells hi' hj', cols_replaceCells, List.getElem?_set, if_pos hlength]
    by_cases h : i' = i ∧ j' = j
    · obtain ⟨rfl, rfl⟩ := h
      rw [if_pos rfl, if_pos ⟨rfl, le_rfl, Nat.lt_succ_self _⟩]
    · rw [if_neg fun heq => h ((index_inj hj hj').mp heq |>.imp Eq.symm Eq.symm),
        if_neg (by omega), getElem?_storage hi' hj']

end

theorem flatIndex_storage (m : DenseMatrix α) (i j : ℕ) :
    m.storage.flatIndex i j =
      ((m.checkIndex i j).map fun _ => i * m.cols + j).mapError .error := by
  rw [flatIndex, checkIndex, rows_storage, cols_storage]
  by_cases h : i < m.rows ∧ j < m.cols
  · rw [if_pos h, if_neg (by omega)]
    rfl
  · rw [if_neg h, if_pos (by omega)]
    rfl

theorem flatIndex_storage_of_lt {m : DenseMatrix α} {i j : ℕ} (hi : i < m.rows) (hj : j < m.cols) :
    m.storage.flatIndex i j = .ok (i * m.cols + j) := by
  rw [flatIndex_storage, checkIndex, if_pos ⟨hi, hj⟩]
  rfl

variable [Scalar α] {m : DenseMatrix α} {i j : ℕ}

theorem get_storage (m : DenseMatrix α) (i j : ℕ) :
    m.storage.get i j = (m.get i j).mapError .error := by
  by_cases h : i < m.rows ∧ j < m.cols
  · rw [get, flatIndex_storage_of_lt h.1 h.2, get_of_lt h.1 h.2]
    exact item_storage h.1 h.2
  · rw [get, flatIndex_storage, checkIndex, if_neg h, get_of_not_lt h]
    rfl

theorem row_storage (m : DenseMatrix α) (i : ℕ) :
    m.storage.row i = (m.row i).mapError fun e => .breach (.outOfRange e) := by
  rw [row, DenseMatrix.row, checkRow, rows_storage, cols_storage]
  by_cases hi : i < m.rows
  · have hslice : Guarded.slice m.data.toList (i * m.cols) ((i + 1) * m.cols) =
        .ok ((List.range m.cols).map fun j => m.entry i j) := by
      have h := Guarded.slice_data hi (show 0 + m.cols ≤ m.cols by omega)
      simp only [Nat.zero_add, Nat.add_zero, ← Nat.succ_mul] at h
      exact h
    rw [storage, Guarded.require_of hi, hslice, if_pos hi]
    rfl
  · rw [Guarded.require, if_neg hi, if_neg hi]
    rfl

theorem row_storage_of_lt (hi : i < m.rows) :
    m.storage.row i = .ok ((List.range m.cols).map (m.entry i)) := by
  rw [row_storage, DenseMatrix.row, checkRow, if_pos hi]
  rfl

theorem row_storage_of_not_lt (hi : ¬ i < m.rows) :
    m.storage.row i = .error (.breach (.outOfRange (.row i m.rows))) := by
  rw [row_storage, DenseMatrix.row, checkRow, if_neg hi]
  rfl

theorem column_storage (m : DenseMatrix α) (j : ℕ) :
    m.storage.column j = (m.column j).mapError .error := by
  rw [column, DenseMatrix.column]
  by_cases hj : j < m.cols
  · have hin : ¬ m.storage.cols ≤ j := not_le.mpr hj
    rw [if_pos hj, if_neg hin, rows_storage, cols_storage,
      mapM_eq_ok fun i hi => item_storage (List.mem_range.mp hi) hj]
    rfl
  · have hout : m.storage.cols ≤ j := not_lt.mp hj
    rw [if_neg hj, if_pos hout]
    rfl

/-- The part of a row that a block takes ends inside of the data. -/
theorem add_width_le {rows cols i col width : ℕ} (hi : i < rows) (hwidth : col + width ≤ cols) :
    i * cols + col + width ≤ rows * cols := by
  have hle := Nat.mul_le_mul_right cols hi
  rw [Nat.succ_mul] at hle
  omega

/-- Sums of positions inside of a matrix fit into a word, and a block is what it should be unless
the arguments themselves have a sum that does not. -/
theorem block_storage {row col rows cols : ℕ} (hdata : m.rows * m.cols < Guarded.wordCount)
    (hrows : row + rows < Guarded.wordCount) (hcols : col + cols < Guarded.wordCount) :
    m.storage.block row col rows cols = stored (m.block row col rows cols) := by
  rw [block, DenseMatrix.block, wrap, wrap, Nat.mod_eq_of_lt hrows, Nat.mod_eq_of_lt hcols]
  by_cases h : row + rows ≤ m.rows ∧ col + cols ≤ m.cols
  · have hin : ¬ (m.storage.rows < row + rows ∨ m.storage.cols < col + cols) := by
      rw [rows_storage, cols_storage]
      omega
    obtain ⟨hinRows, hinCols⟩ := h
    have hpieces : (List.range' row (row + rows - row)).foldlM (fun data i => do
        let piece ← guarded (Guarded.slice m.storage.data (wrap (i * m.cols + col))
          (wrap (wrap (i * m.cols + col) + cols)))
        return data ++ piece) [] =
          (.ok (ofFn rows cols fun i j => m.entry (row + i) (col + j)).storage.data :
            Except Fault (List α)) := by
      rw [Nat.add_sub_cancel_left]
      -- The pieces of the rows before row `i`.
      apply Guarded.loop_eq fun i => ((List.range (i - row)).map fun i =>
        (List.range cols).map fun j => m.entry (row + i) (col + j)).flatten
      · rw [Nat.sub_self]
        rfl
      · rw [Nat.add_sub_cancel_left, storage, data_ofFn]
      · intro i hi hlt
        have hend := add_width_le (show i < m.rows by omega) hinCols
        have hstart : wrap (i * m.cols + col) = i * m.cols + col :=
          Nat.mod_eq_of_lt (by omega)
        have hstop : wrap (i * m.cols + col + cols) = i * m.cols + col + cols :=
          Nat.mod_eq_of_lt (by omega)
        have hpiece : Guarded.slice m.storage.data (i * m.cols + col) (i * m.cols + col + cols) =
            .ok ((List.range cols).map fun j => m.entry i (col + j)) :=
          Guarded.slice_data (by omega) hinCols
        rw [hstart, hstop, hpiece, Nat.sub_add_comm hi, List.range_succ, List.map_append,
          List.flatten_append, List.map_singleton, List.flatten_singleton,
          Nat.add_sub_cancel' hi]
        rfl
    have hlength : (ofFn rows cols fun i j => m.entry (row + i) (col + j)).storage.data.length =
        rows * cols := length_data_storage _
    have hproduct : rows * cols ≤ m.rows * m.cols :=
      Nat.mul_le_mul (by omega) (by omega)
    rw [if_neg hin, if_pos ⟨hinRows, hinCols⟩]
    simp only [cols_storage]
    rw [hpieces]
    change fromVec _ rows cols = _
    rw [fromVec_eq (Or.inr (by omega)), ofArray, dif_pos (by simpa using hlength)]
    rfl
  · have hout : m.storage.rows < row + rows ∨ m.storage.cols < col + cols := by
      rw [rows_storage, cols_storage]
      omega
    rw [if_pos hout, if_neg h]
    rfl

end Storage

end DenseSystem
