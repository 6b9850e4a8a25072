import Mathlib.Tactic
import DenseSystem.Proofs.Storage.Elimination

/-! # The history of a matrix

A matrix is built in one of several ways, from its entries or from other matrices, and then written
to any number of times. Its entries fit its shape all along, all ways to a cell lead to the same
value, and a write changes the cells that it addresses or, when it fails, none.
-/
namespace DenseSystem

namespace Storage

variable {α : Type}

/-! ## Writes -/

inductive Write (α : Type) where
  | set (row col : ℕ) (value : α)
  | assign (row col : ℕ) (value : α)
  | rowMut (row : ℕ) (f : Rewrite α)
  | asMutSlice (f : Rewrite α)
  | swapRows (first second : ℕ)

namespace Write

def change : Write α → Change α Unit
  | set row col value => Storage.set row col value
  | assign row col value => Storage.assign row col value
  | rowMut row f => Storage.rowMut row f
  | asMutSlice f => Storage.asMutSlice f
  | swapRows first second => Storage.swapRows first second

/-- An assignment, which is not checked, is to a cell of the matrix. -/
def Fits (rows cols : ℕ) : Write α → Prop
  | assign row col _ => row < rows ∧ col < cols
  | _ => True

def fault? (rows cols : ℕ) : Write α → Option Fault
  | set row col _ =>
    if row < rows ∧ col < cols then none else some (.error (.indexOutOfBounds row col rows cols))
  | rowMut row _ => if row < rows then none else some (.breach (.outOfRange (.row row rows)))
  | swapRows first second =>
    if first < rows ∧ second < rows then none
    else some (.breach (.outOfRange (.swap first second rows)))
  | assign _ _ _ | asMutSlice _ => none

end Write

/-- The matrix after some writes, of which those that fail are passed over. -/
def writeAll (writes : List (Write α)) (s : Storage α) : Storage α :=
  writes.foldl (fun s write => (Change.run write.change s).2) s

theorem writeAll_cons (write : Write α) (writes : List (Write α)) (s : Storage α) :
    writeAll (write :: writes) s = writeAll writes (Change.run write.change s).2 := rfl

/-- An edit of a matrix, which writes as many entries of a row as there are. -/
def Write.ofEdit : Edit α → Write α
  | .set row col value => set row col value
  | .setRow row values => rowMut row (.overwrite values)
  | .fill value => asMutSlice (.fill value)
  | .swapRows first second => swapRows first second

def Fault.ofEdit : Edit.Fault → Fault
  | .error e => .error e
  | .outOfRange e => .breach (.outOfRange e)

/-! ## What can be relied on -/

/-- Each way to the cell in row `i` and column `j` leads to the value. -/
structure Holds (s : Storage α) (i j : ℕ) (value : α) : Prop where
  get : s.get i j = .ok value
  index : s.index i j = .ok value
  row : ∃ cells, s.row i = .ok cells ∧ cells[j]? = some value
  column : ∃ cells, s.column j = .ok cells ∧ cells[i]? = some value
  slice : s.data[i * s.cols + j]? = some value
  block : s.block i j 1 1 = .ok ⟨1, 1, [value]⟩

def Write.Effect (s after : Storage α) : Write α → Prop
  | set row col value | assign row col value =>
    ∀ i j x, s.Holds i j x → after.Holds i j (if i = row ∧ j = col then value else x)
  | rowMut row f =>
    ∀ i cells, s.row i = .ok cells → after.row i = .ok (if i = row then f.apply cells else cells)
  | asMutSlice f => after.data = f.apply s.data
  | swapRows first second => ∀ i, after.row i = s.row (Equiv.swap first second i)

/-- The operations on a matrix have their results in memory, as long as the sizes that are asked for
fit into machine words. -/
structure Represents [Scalar α] (s : Storage α) (m : DenseMatrix α) : Prop where
  storage : m.storage = s
  get : ∀ i j, s.get i j = (m.get i j).mapError .error
  row : ∀ i, s.row i = (m.row i).mapError fun e => .breach (.outOfRange e)
  column : ∀ j, s.column j = (m.column j).mapError .error
  block : ∀ row col rows cols, row + rows < Guarded.wordCount → col + cols < Guarded.wordCount →
    s.block row col rows cols = stored (m.block row col rows cols)
  coefficients : m.rows + 1 < Guarded.wordCount → s.coefficients = stored m.coefficients
  augment : ∀ rhs, m.rows * (m.rows + 1) < Guarded.wordCount →
    s.augment rhs = stored (m.augment rhs)
  inverse : m.rows * (2 * m.rows) < Guarded.wordCount → s.inverse = stored m.inverse
  edits : ∀ edits : List (Edit α),
    writeAll (edits.map Write.ofEdit) s = (Edit.applyAll m edits).storage

/-- What a matrix grants to its callers, whichever calls they make next. -/
structure Sound [Scalar α] (s : Storage α) : Prop where
  length : s.data.length = s.rows * s.cols
  represents : ∃ m, s.Represents m
  holds : ∀ i < s.rows, ∀ j < s.cols, ∃ value, s.Holds i j value
  succeeds : ∀ write : Write α, write.Fits s.rows s.cols → write.fault? s.rows s.cols = none →
    ∃ after, Change.run write.change s = (.ok (), after) ∧ after.rows = s.rows ∧
      after.cols = s.cols ∧ write.Effect s after
  fails : ∀ (write : Write α) (fault : Fault), write.fault? s.rows s.cols = some fault →
    Change.run write.change s = (.error fault, s)
  swap_self : ∀ i < s.rows, Change.run (swapRows i i) s = (.ok (), s)
  swap_comm : ∀ i < s.rows, ∀ j < s.rows,
    Change.run (swapRows i j) s = Change.run (swapRows j i) s
  swap_swap : ∀ i < s.rows, ∀ j < s.rows,
    Change.run (do swapRows i j; swapRows i j) s = (.ok (), s)

/-- A matrix that was built from data of its own represents the one that those data make up. -/
structure Faithful (s : Storage Float) : Prop where
  fromVec : ∀ data rows cols, Storage.fromVec data rows cols = .ok s →
    ∃ m, DenseMatrix.ofArray data.toArray rows cols = .ok m ∧ s.Represents m
  fromRows : ∀ rows, Storage.fromRows rows = .ok s →
    ∃ m, DenseMatrix.ofRows rows = .ok m ∧ s.Represents m
  parse : ∀ text, Storage.parse text = .ok s →
    ∃ m, Exchange.read text = .ok m ∧ s.Represents m
  deserialise : ∀ d, Storage.deserialise d = some (.ok s) →
    ∃ m, DenseMatrix.ofDocument d = .ok m ∧ s.Represents m

/-! ## Histories -/

/-- The matrices that calls return and that writes leave, whatever came before. A slice of entries
is copied into a list first. -/
inductive Obtained : Storage Float → Prop where
  | fromVec {data : List Float} {rows cols : ℕ} {s : Storage Float}
      (h : Storage.fromVec data rows cols = .ok s) : Obtained s
  | fromRows {rows : List (List Float)} {s : Storage Float}
      (h : Storage.fromRows rows = .ok s) : Obtained s
  | zeros {rows cols : ℕ} (hwords : rows * cols < Guarded.wordCount) :
      Obtained (Storage.zeros rows cols)
  | identity {n : ℕ} {s : Storage Float} (hwords : n * n < Guarded.wordCount)
      (h : Storage.identity n = .ok s) : Obtained s
  | augment {s t : Storage Float} {rhs : List Float} (hs : Obtained s)
      (h : s.augment rhs = .ok t) : Obtained t
  | parse {text : String} {s : Storage Float} (h : Storage.parse text = .ok s) : Obtained s
  | deserialise {d : Document} {s : Storage Float}
      (h : Storage.deserialise d = some (.ok s)) : Obtained s
  | block {s t : Storage Float} {row col rows cols : ℕ} (hs : Obtained s)
      (h : s.block row col rows cols = .ok t) : Obtained t
  | coefficients {s t : Storage Float} (hs : Obtained s) (h : s.coefficients = .ok t) : Obtained t
  | inverse {s t : Storage Float} (hs : Obtained s) (h : s.inverse = .ok t) : Obtained t
  | written {s : Storage Float} {write : Write Float} (hs : Obtained s)
      (hfits : write.Fits s.rows s.cols) : Obtained (Change.run write.change s).2

/-! ## Shapes that are filled -/

/-- The entries fill the shape, and their positions are machine words. -/
structure Filled (s : Storage α) : Prop where
  length : s.data.length = s.rows * s.cols
  words : s.rows * s.cols < Guarded.wordCount

theorem bind_eq_ok {β γ : Type} {x : Except Fault β} {f : β → Except Fault γ} {c : γ}
    (h : x >>= f = .ok c) : ∃ b, x = .ok b ∧ f b = .ok c := by
  cases x with
  | error e => cases h
  | ok b => exact ⟨b, rfl, h⟩

section

variable {s t : Storage α} {rows cols : ℕ}

theorem filled_storage {m : DenseMatrix α} (hwords : m.rows * m.cols < Guarded.wordCount) :
    m.storage.Filled :=
  ⟨m.length_data_storage, hwords⟩

theorem filled_of_fromVec {data : List α} (h : fromVec data rows cols = .ok s) : s.Filled := by
  rw [fromVec, checkedMul] at h
  by_cases hwords : rows * cols < Guarded.wordCount
  · rw [if_pos hwords] at h
    split_ifs at h with hlength
    cases h
    exact ⟨(Option.some.inj hlength).symm, hwords⟩
  · rw [if_neg hwords, if_neg (by simp)] at h
    cases h

theorem filled_of_fromRows {lists : List (List α)} (h : fromRows lists = .ok s) : s.Filled := by
  obtain ⟨data, -, h⟩ := bind_eq_ok h
  exact filled_of_fromVec h

theorem filled_of_augment {rhs : List α} (h : s.augment rhs = .ok t) : t.Filled := by
  rw [augment] at h
  split_ifs at h
  exact filled_of_fromVec h

theorem filled_of_block {row col : ℕ} (h : s.block row col rows cols = .ok t) : t.Filled := by
  rw [block] at h
  split_ifs at h
  obtain ⟨data, -, h⟩ := bind_eq_ok h
  exact filled_of_fromVec h

theorem filled_of_coefficients (h : s.coefficients = .ok t) : t.Filled := by
  rw [coefficients] at h
  split_ifs at h
  exact filled_of_block h

theorem filled_of_inverse [Scalar α] (h : s.inverse = .ok t) : t.Filled := by
  rw [inverse] at h
  split_ifs at h
  obtain ⟨-, -, h⟩ := bind_eq_ok h
  exact filled_of_block h

end

theorem filled_of_parse {text : String} {s : Storage Float} (h : parse text = .ok s) :
    s.Filled := by
  rw [parse] at h
  split at h
  · cases h
  · split at h
    · cases h
    · obtain ⟨rows, -, h⟩ := bind_eq_ok h
      exact filled_of_fromVec h

theorem filled_of_deserialise {d : Document} {s : Storage Float}
    (h : deserialise d = some (.ok s)) : s.Filled := by
  rw [deserialise] at h
  obtain ⟨parts, -, h⟩ := Option.map_eq_some_iff.mp h
  exact filled_of_fromVec h

/-! ## One write -/

section

variable [Scalar α] {m : DenseMatrix α} {i j : ℕ} {value : α}

open Change DenseMatrix

def Write.after (m : DenseMatrix α) : Write α → DenseMatrix α
  | set row col value | assign row col value => m.replaceCells row col (col + 1) fun _ => value
  | rowMut row f => rewriteRow m row f
  | asMutSlice f => ⟨m.rows, m.cols, (f.apply m.data.toList).toArray, by
      simp [f.length_apply, m.size_eq]⟩
  | swapRows first second => m.exchangeRows first second

theorem rows_after (m : DenseMatrix α) (write : Write α) : (write.after m).rows = m.rows := by
  cases write <;> rfl

theorem cols_after (m : DenseMatrix α) (write : Write α) : (write.after m).cols = m.cols := by
  cases write <;> rfl

theorem run_change_of_none {write : Write α} (hfits : write.Fits m.rows m.cols)
    (h : write.fault? m.rows m.cols = none) :
    run write.change m.storage = (.ok (), (write.after m).storage) := by
  cases write with
  | set row col value =>
    by_cases hcell : row < m.rows ∧ col < m.cols
    · exact run_set_of_lt hcell.1 hcell.2 value
    · simp [Write.fault?, hcell] at h
  | assign row col value => exact run_assign hfits.1 hfits.2 value
  | rowMut row f =>
    by_cases hrow : row < m.rows
    · exact run_rowMut_of_lt hrow f
    · simp [Write.fault?, hrow] at h
  | asMutSlice f => rfl
  | swapRows first second =>
    by_cases hrows : first < m.rows ∧ second < m.rows
    · rw [Write.change, run_swapRows, DenseMatrix.swapRows, if_pos hrows]
      rfl
    · simp [Write.fault?, hrows] at h

theorem run_change_of_some {write : Write α} {fault : Fault}
    (h : write.fault? m.rows m.cols = some fault) :
    run write.change m.storage = (.error fault, m.storage) := by
  cases write with
  | set row col value =>
    by_cases hcell : row < m.rows ∧ col < m.cols
    · simp [Write.fault?, hcell] at h
    · rw [Write.fault?, if_neg hcell] at h
      cases h
      rw [Write.change, run_set, DenseMatrix.set, checkIndex, if_neg hcell]
      rfl
  | assign row col value => cases h
  | rowMut row f =>
    by_cases hrow : row < m.rows
    · simp [Write.fault?, hrow] at h
    · rw [Write.fault?, if_neg hrow] at h
      cases h
      exact run_rowMut_of_not_lt hrow f
  | asMutSlice f => cases h
  | swapRows first second =>
    by_cases hrows : first < m.rows ∧ second < m.rows
    · simp [Write.fault?, hrows] at h
    · rw [Write.fault?, if_neg hrows] at h
      cases h
      rw [Write.change, run_swapRows, DenseMatrix.swapRows, if_neg hrows]
      rfl

theorem filled_run {s : Storage α} (h : s.Filled) {write : Write α}
    (hfits : write.Fits s.rows s.cols) :
    (run write.change s).2.Filled ∧ (run write.change s).2.rows = s.rows ∧
      (run write.change s).2.cols = s.cols := by
  obtain ⟨m, rfl⟩ := exists_storage h.length
  cases hfault : write.fault? m.rows m.cols with
  | none =>
    rw [run_change_of_none hfits hfault]
    have hrows := rows_after m write
    have hcols := cols_after m write
    exact ⟨filled_storage (by rw [hrows, hcols]; exact h.words), hrows, hcols⟩
  | some fault =>
    rw [run_change_of_some hfault]
    exact ⟨h, rfl, rfl⟩

/-! ## One cell -/

theorem block_cell (hwords : m.rows * m.cols < Guarded.wordCount) (hi : i < m.rows)
    (hj : j < m.cols) : m.storage.block i j 1 1 = .ok ⟨1, 1, [m.entry i j]⟩ := by
  have hrows : m.rows ≤ m.rows * m.cols := Nat.le_mul_of_pos_right _ (Nat.zero_lt_of_lt hj)
  have hcols : m.cols ≤ m.rows * m.cols := Nat.le_mul_of_pos_left _ (Nat.zero_lt_of_lt hi)
  rw [block_storage hwords (by omega) (by omega), DenseMatrix.block, if_pos ⟨hi, hj⟩]
  rfl

theorem holds_storage (hwords : m.rows * m.cols < Guarded.wordCount) (hi : i < m.rows)
    (hj : j < m.cols) : m.storage.Holds i j (m.entry i j) where
  get := by
    rw [get_storage, get_of_lt hi hj]
    rfl
  index := index_storage hi hj
  row := ⟨_, row_storage_of_lt hi, by simp [hj]⟩
  column := by
    refine ⟨(List.range m.rows).map (m.entry · j), ?_, by simp [hi]⟩
    rw [column_storage, DenseMatrix.column, if_pos hj]
    rfl
  slice := getElem?_storage hi hj
  block := block_cell hwords hi hj

theorem holds_storage_iff (hwords : m.rows * m.cols < Guarded.wordCount) :
    m.storage.Holds i j value ↔ i < m.rows ∧ j < m.cols ∧ m.entry i j = value := by
  constructor
  · intro h
    have hget := h.get
    rw [get_storage] at hget
    by_cases hcell : i < m.rows ∧ j < m.cols
    · rw [get_of_lt hcell.1 hcell.2] at hget
      exact ⟨hcell.1, hcell.2, Except.ok.inj hget⟩
    · rw [get_of_not_lt hcell] at hget
      cases hget
  · rintro ⟨hi, hj, rfl⟩
    exact holds_storage hwords hi hj

/-! ## What a write does -/

theorem holds_replaceCells (hwords : m.rows * m.cols < Guarded.wordCount) {row col : ℕ} {x : α}
    (h : m.storage.Holds i j x) :
    (m.replaceCells row col (col + 1) fun _ => value).storage.Holds i j
      (if i = row ∧ j = col then value else x) := by
  obtain ⟨hi, hj, rfl⟩ := (holds_storage_iff hwords).mp h
  refine (holds_storage_iff (by exact hwords)).mpr ⟨hi, hj, ?_⟩
  rw [entry_replaceCells hi hj]
  exact if_congr (by omega) rfl rfl

theorem row_rewriteRow {row : ℕ} {f : Rewrite α} {cells : List α}
    (h : m.storage.row i = .ok cells) :
    (rewriteRow m row f).storage.row i = .ok (if i = row then f.apply cells else cells) := by
  by_cases hi : i < m.rows
  · rw [row_storage_of_lt hi] at h
    cases h
    have hlength : (f.apply ((List.range m.cols).map (m.entry row))).length = m.cols := by
      rw [f.length_apply, List.length_map, List.length_range]
    rw [row_storage_of_lt (by exact hi)]
    refine congrArg Except.ok ?_
    by_cases hrow : i = row
    · subst hrow
      rw [if_pos rfl, ← map_getD_range hlength]
      apply List.map_congr_left
      intro j hj
      rw [rewriteRow, entry_replaceCells hi (List.mem_range.mp hj),
        if_pos ⟨rfl, Nat.zero_le _, List.mem_range.mp hj⟩]
    · rw [if_neg hrow]
      apply List.map_congr_left
      intro j hj
      rw [rewriteRow, entry_replaceCells hi (List.mem_range.mp hj),
        if_neg fun hcell => hrow hcell.1]
  · rw [row_storage_of_not_lt hi] at h
    cases h

theorem row_exchangeRows {first second : ℕ} (hfirst : first < m.rows) (hsecond : second < m.rows)
    (i : ℕ) :
    (m.exchangeRows first second).storage.row i = m.storage.row (Equiv.swap first second i) := by
  rw [Equiv.swap_apply_def]
  by_cases hi : i < m.rows
  · have hswapped : (if i = first then second else if i = second then first else i) < m.rows := by
      split_ifs <;> assumption
    rw [row_storage_of_lt (by exact hi), row_storage_of_lt hswapped]
    refine congrArg Except.ok (List.map_congr_left fun j hj => ?_)
    exact entry_exchangeRows m first second hi (List.mem_range.mp hj)
  · rw [if_neg (by omega), if_neg (by omega), row_storage_of_not_lt (by exact hi),
      row_storage_of_not_lt hi]
    rfl

theorem effect_after (hwords : m.rows * m.cols < Guarded.wordCount) {write : Write α}
    (h : write.fault? m.rows m.cols = none) : write.Effect m.storage (write.after m).storage := by
  cases write with
  | set row col value => exact fun i j x hx => holds_replaceCells hwords hx
  | assign row col value => exact fun i j x hx => holds_replaceCells hwords hx
  | rowMut row f => exact fun i cells hcells => row_rewriteRow hcells
  | asMutSlice f => rfl
  | swapRows first second =>
    by_cases hrows : first < m.rows ∧ second < m.rows
    · exact fun i => row_exchangeRows hrows.1 hrows.2 i
    · simp [Write.fault?, hrows] at h

theorem run_swapRows_of_lt (hi : i < m.rows) (hj : j < m.rows) :
    run (swapRows i j) m.storage = (.ok (), (m.exchangeRows i j).storage) := by
  rw [run_swapRows, DenseMatrix.swapRows, if_pos ⟨hi, hj⟩]
  rfl

/-! ## Edits -/

theorem rewriteRow_overwrite (m : DenseMatrix α) (row : ℕ) (values : List α) :
    rewriteRow m row (.overwrite values) =
      ofFn m.rows m.cols fun i j =>
        if i = row then values.getD j (m.entry i j) else m.entry i j := by
  refine ext_entry rfl rfl fun i (hi : i < m.rows) j (hj : j < m.cols) => ?_
  rw [rewriteRow, entry_replaceCells hi hj, entry_ofFn _ hi hj]
  by_cases hrow : i = row
  · subst hrow
    rw [if_pos ⟨rfl, Nat.zero_le _, hj⟩, if_pos rfl, getD_overwrite (by simpa using hj)]
    simp [List.getD_eq_getElem?_getD, hj]
  · rw [if_neg hrow, if_neg fun hcell => hrow hcell.1]

theorem run_fill (m : DenseMatrix α) (value : α) :
    run (asMutSlice (.fill value)) m.storage = (.ok (), (m.fill value).storage) := by
  refine congrArg (Except.ok (), ·) (storage_eq rfl rfl ?_ ?_)
  · exact ((Rewrite.fill value).length_apply _).trans m.length_data_storage
  · intro i (hi : i < m.rows) j (hj : j < m.cols)
    have hposition : i * m.cols + j < m.storage.data.length :=
      (index_lt hi hj).trans_eq m.length_data_storage.symm
    have hentry : (m.fill value).entry i j = value := entry_ofFn _ hi hj
    rw [hentry]
    exact List.getElem?_replicate_of_lt hposition

theorem run_ofEdit (m : DenseMatrix α) (edit : Edit α) :
    run (Write.ofEdit edit).change m.storage =
      applied m ((edit.apply m).mapError Fault.ofEdit) := by
  cases edit with
  | set row col value =>
    refine (run_set m row col value).trans ?_
    rw [Edit.apply]
    cases m.set row col value <;> rfl
  | setRow row values =>
    rw [Edit.apply, setRow, checkRow]
    by_cases hrow : row < m.rows
    · refine (run_rowMut_of_lt hrow _).trans ?_
      rw [rewriteRow_overwrite, if_pos hrow]
      rfl
    · refine (run_rowMut_of_not_lt hrow _).trans ?_
      rw [if_neg hrow]
      rfl
  | fill value => exact run_fill m value
  | swapRows first second =>
    refine (run_swapRows m first second).trans ?_
    rw [Edit.apply]
    cases m.swapRows first second <;> rfl

theorem writeAll_ofEdit (m : DenseMatrix α) (edits : List (Edit α)) :
    writeAll (edits.map Write.ofEdit) m.storage = (Edit.applyAll m edits).storage := by
  induction edits generalizing m with
  | nil => rfl
  | cons edit edits ih =>
    rw [List.map_cons, writeAll_cons, run_ofEdit]
    change _ = (Edit.applyAll ((edit.apply m).toOption.getD m) edits).storage
    rw [← ih]
    cases edit.apply m <;> rfl

theorem represents_storage (hwords : m.rows * m.cols < Guarded.wordCount) :
    m.storage.Represents m where
  storage := rfl
  get := get_storage m
  row := row_storage m
  column := column_storage m
  block _ _ _ _ hrows hcols := block_storage hwords hrows hcols
  coefficients hrows := coefficients_eq hwords hrows
  augment rhs hsize := augment_eq rhs hsize
  inverse hsize := inverse_storage hsize
  edits := writeAll_ofEdit m

theorem Filled.sound {s : Storage α} (h : s.Filled) : s.Sound := by
  obtain ⟨m, rfl⟩ := exists_storage h.length
  exact {
    length := h.length
    represents := ⟨m, represents_storage h.words⟩
    holds := fun i hi j hj => ⟨m.entry i j, holds_storage h.words hi hj⟩
    succeeds := fun write hfits hfault =>
      ⟨(write.after m).storage, run_change_of_none hfits hfault, rows_after m write,
        cols_after m write, effect_after h.words hfault⟩
    fails := fun write fault hfault => run_change_of_some hfault
    swap_self := fun i hi => by rw [run_swapRows_of_lt hi hi, exchangeRows_self]
    swap_comm := fun i hi j hj => by
      rw [run_swapRows_of_lt hi hj, run_swapRows_of_lt hj hi, exchangeRows_comm]
    swap_swap := fun i hi j hj => by
      rw [run_bind_of_ok (run_swapRows_of_lt hi hj), run_swapRows_of_lt (by exact hi) (by exact hj),
        exchangeRows_exchangeRows hi hj] }

end

/-! ## Data of its own -/

section

variable {s : Storage Float}

theorem Filled.length_lt (hs : s.Filled) : s.data.length < Guarded.wordCount :=
  hs.length.trans_lt hs.words

theorem Filled.represents_of_stored {x : Except Error (DenseMatrix Float)} (hs : s.Filled)
    (h : stored x = .ok s) : ∃ m, x = .ok m ∧ s.Represents m := by
  cases x with
  | error e => cases h
  | ok m =>
    cases h
    exact ⟨m, rfl, represents_storage hs.words⟩

theorem Filled.faithful (hs : s.Filled) : s.Faithful where
  fromVec data rows cols h := by
    have hwords : data.length < Guarded.wordCount := data_of_fromVec h ▸ hs.length_lt
    exact hs.represents_of_stored ((fromVec_eq (.inl hwords)).symm.trans h)
  fromRows rows h := by
    have hwords : rows.flatten.length < Guarded.wordCount := data_of_fromRows h ▸ hs.length_lt
    exact hs.represents_of_stored ((fromRows_eq hwords).symm.trans h)
  parse text h := hs.represents_of_stored ((parse_eq text).symm.trans h)
  deserialise d h := by
    obtain ⟨⟨data, rows, cols⟩, hparts, hdata⟩ := Option.map_eq_some_iff.mp h
    have hwords : data.length < Guarded.wordCount := data_of_fromVec hdata ▸ hs.length_lt
    obtain ⟨m, hm, rfl⟩ := (deserialise_eq_some_iff hparts hwords s).mp h
    exact ⟨m, hm, represents_storage hs.words⟩

end

/-! ## All histories -/

/-- All ways but three end in the check of a shape, so it does not matter what came before. Only a
write needs the shape of the matrix that it is made to. -/
theorem Obtained.filled {s : Storage Float} (h : Obtained s) : s.Filled := by
  induction h with
  | fromVec h => exact filled_of_fromVec h
  | fromRows h => exact filled_of_fromRows h
  | zeros hwords =>
    rw [zeros_eq hwords]
    exact filled_storage hwords
  | identity hwords h =>
    rw [identity_eq hwords] at h
    cases h
    exact filled_storage hwords
  | augment _ h _ => exact filled_of_augment h
  | parse h => exact filled_of_parse h
  | deserialise h => exact filled_of_deserialise h
  | block _ h _ => exact filled_of_block h
  | coefficients _ h _ => exact filled_of_coefficients h
  | inverse _ h _ => exact filled_of_inverse h
  | written _ hfits ih => exact (filled_run ih hfits).1

theorem filled_writeAll [Scalar α] {s : Storage α} (h : s.Filled) {writes : List (Write α)}
    (hfits : ∀ write ∈ writes, write.Fits s.rows s.cols) :
    (writeAll writes s).Filled ∧ (writeAll writes s).rows = s.rows ∧
      (writeAll writes s).cols = s.cols := by
  induction writes generalizing s with
  | nil => exact ⟨h, rfl, rfl⟩
  | cons write writes ih =>
    obtain ⟨hwrite, hwrites⟩ := List.forall_mem_cons.mp hfits
    obtain ⟨hfilled, hrows, hcols⟩ := filled_run h hwrite
    obtain ⟨hfilled', hrows', hcols'⟩ := ih hfilled fun next hnext => by
      rw [hrows, hcols]
      exact hwrites next hnext
    exact ⟨hfilled', hrows'.trans hrows, hcols'.trans hcols⟩

/-- A matrix is what it was built from, and whatever is written to it then, its shape stays and it can
be relied on. -/
theorem sound_after_writes {s : Storage Float} (hs : Obtained s) (writes : List (Write Float))
    (hfits : ∀ write ∈ writes, write.Fits s.rows s.cols) :
    s.Faithful ∧ (writeAll writes s).rows = s.rows ∧ (writeAll writes s).cols = s.cols ∧
      (writeAll writes s).Sound := by
  obtain ⟨hfilled, hrows, hcols⟩ := filled_writeAll hs.filled hfits
  exact ⟨hs.filled.faithful, hrows, hcols, hfilled.sound⟩

/-- Two writes, the second of which is out of bounds. -/
theorem sound_after_exchange_and_failure :
    let s : Storage Float := ⟨2, 1, [1, 2]⟩
    let writes : List (Write Float) := [.swapRows 0 1, .set 2 0 7]
    Obtained s ∧ (∀ write ∈ writes, write.Fits s.rows s.cols) ∧
      writeAll writes s = ⟨2, 1, [2, 1]⟩ ∧ (writeAll writes s).Sound := by
  intro s writes
  have hs : Obtained s := .fromVec (show fromVec [1, 2] 2 1 = .ok s from rfl)
  have hfits : ∀ write ∈ writes, write.Fits s.rows s.cols := by
    simp [writes, s, Write.Fits]
  exact ⟨hs, hfits, rfl, (sound_after_writes hs writes hfits).2.2.2⟩

end Storage

end DenseSystem
