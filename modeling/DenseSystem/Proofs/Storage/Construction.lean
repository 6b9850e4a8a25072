import Mathlib.Tactic
import DenseSystem.Document.Matrix
import DenseSystem.Proofs.Exchange.Grammar
import DenseSystem.Proofs.Storage.Basic

/-! # Matrices built in memory

Each way to a matrix puts a list of entries together: it appends rows, writes ones into zeros,
interleaves rows with a right-hand side, or reads a text or a document. What it makes of fewer
entries than there are machine words is the matrix that it should be.
-/
namespace DenseSystem.Storage

open DenseMatrix

variable {α : Type}

/-- A row behind the rows before it, which all have to have one length. -/
def appendRow (height width : ℕ) (data row : List α) : Except Fault (List α) :=
  if row.length ≠ width then .error (.error (.invalidShape height width .raggedRows))
  else .ok (data ++ row)

def fromRows (rows : List (List α)) : Except Fault (Storage α) := do
  let height := rows.length
  let width := (rows.head?.map List.length).getD 0
  let data ← rows.foldlM (appendRow height width) []
  fromVec data height width

def zeros [Zero α] (rows cols : ℕ) : Storage α :=
  ⟨rows, cols, List.replicate (wrap (rows * cols)) 0⟩

def placeOne [One α] (n : ℕ) (data : List α) (i : ℕ) : Except Fault (List α) := do
  let _ ← guarded (Guarded.item data (i * n + i))
  return data.set (i * n + i) 1

def identity [Zero α] [One α] (n : ℕ) : Except Fault (Storage α) := do
  let data ← (List.range' 0 n).foldlM (placeOne n) (List.replicate (wrap (n * n)) 0)
  return ⟨n, n, data⟩

/-- The first pieces of a list, each of `width` items while there are as many. -/
def pieces (width : ℕ) : ℕ → List α → List (List α)
  | 0, _ => []
  | _ + 1, [] => []
  | count + 1, x :: xs => (x :: xs).take width :: pieces width count ((x :: xs).drop width)

/-- The rows one after the other. Pieces without items are not possible, so a matrix without columns
has no rows to pass through. -/
def rowIter (s : Storage α) : List (List α) := pieces (max s.cols 1) s.rows s.data

/-- A row of coefficients behind the rows before it, and its right-hand side behind it. -/
def appendEquation (data : List α) (equation : List α × α) : List α :=
  data ++ equation.1 ++ [equation.2]

def augment (s : Storage α) (rhs : List α) : Except Fault (Storage α) :=
  if s.rows ≠ s.cols then .error (.error (.notSquare s.rows s.cols))
  else if rhs.length ≠ s.rows then .error (.error (.dimensionMismatch s.rows rhs.length))
  else fromVec ((s.rowIter.zip rhs).foldl appendEquation []) s.rows (s.rows + 1)

def coefficients (s : Storage α) : Except Fault (Storage α) :=
  if 1 ≤ s.rows ∧ s.cols = wrap (s.rows + 1) then s.block 0 0 s.rows s.rows
  else .error (.error (.invalidShape s.rows s.cols .notAugmented))

def parse (text : String) : Except Fault (Storage Float) :=
  match Exchange.content text with
  | [] => .error (.error (.parse 1 .missingSize))
  | (number, line) :: rest =>
    match Exchange.readSize line with
    | .error fault => .error (.error (.parse number fault))
    | .ok n => do
      let rows ← (Exchange.readEquations n number n rest).mapError .error
      fromVec rows.flatten n (n + 1)

def deserialise (d : Document) : Option (Except Fault (Storage Float)) :=
  (parts? d).map fun (data, rows, cols) => fromVec data rows cols

/-! ## Rows -/

section

variable {height width : ℕ} {rows : List (List α)}

theorem foldlM_appendRow_eq_ok (data : List α) (h : ∀ row ∈ rows, row.length = width) :
    rows.foldlM (appendRow height width) data = .ok (data ++ rows.flatten) := by
  induction rows generalizing data with
  | nil =>
    rw [List.flatten_nil, List.append_nil]
    rfl
  | cons row rows ih =>
    obtain ⟨hrow, hrows⟩ := List.forall_mem_cons.mp h
    rw [List.foldlM_cons, appendRow, if_neg (not_not.mpr hrow)]
    change rows.foldlM _ (data ++ row) = _
    rw [ih (data ++ row) hrows, List.flatten_cons, List.append_assoc]

theorem foldlM_appendRow_eq_error (data : List α) (h : ¬ ∀ row ∈ rows, row.length = width) :
    rows.foldlM (appendRow height width) data =
      .error (.error (.invalidShape height width .raggedRows)) := by
  induction rows generalizing data with
  | nil => exact absurd (fun _ hrow => by cases hrow) h
  | cons row rows ih =>
    rw [List.foldlM_cons, appendRow]
    by_cases hrow : row.length = width
    · rw [if_neg (not_not.mpr hrow)]
      exact ih (data ++ row) fun hrows => h (List.forall_mem_cons.mpr ⟨hrow, hrows⟩)
    · rw [if_pos hrow]
      rfl

theorem data_of_fromRows {s : Storage α} (h : fromRows rows = .ok s) : s.data = rows.flatten := by
  rw [fromRows] at h
  by_cases hrows : ∀ row ∈ rows, row.length = (rows.head?.map List.length).getD 0
  · rw [foldlM_appendRow_eq_ok [] hrows] at h
    exact data_of_fromVec h
  · rw [foldlM_appendRow_eq_error [] hrows] at h
    cases h

theorem fromRows_eq (hwords : rows.flatten.length < Guarded.wordCount) :
    fromRows rows = stored (ofRows rows) := by
  rw [fromRows, ofRows]
  by_cases h : ∀ row ∈ rows, row.length = (rows.head?.map List.length).getD 0
  · rw [if_pos (by simpa using h), foldlM_appendRow_eq_ok [] h]
    exact fromVec_eq (Or.inl hwords)
  · rw [if_neg (by simpa using h), foldlM_appendRow_eq_error [] h]
    rfl

theorem pieces_flatten (hwidth : 0 < width)
    (h : ∀ row ∈ rows, row.length = width) : pieces width rows.length rows.flatten = rows := by
  induction rows with
  | nil => rfl
  | cons row rows ih =>
    obtain ⟨hrow, hrows⟩ := List.forall_mem_cons.mp h
    obtain ⟨x, xs, rfl⟩ := List.exists_cons_of_length_pos (hrow.symm ▸ hwidth)
    rw [List.length_cons, List.flatten_cons, List.cons_append, pieces, ← List.cons_append,
      List.take_left' hrow, List.drop_left' hrow, ih hrows]

theorem pieces_nil (width count : ℕ) : pieces width count ([] : List α) = [] := by
  cases count <;> rfl

end

section

variable [Zero α]

theorem data_storage (m : DenseMatrix α) : m.storage.data =
    ((List.range m.rows).map fun i => (List.range m.cols).map (m.entry i)).flatten := by
  have h := data_ofFn m.rows m.cols m.entry
  rw [ofFn_entry] at h
  rw [storage, h]

theorem rowIter_storage (m : DenseMatrix α) : m.storage.rowIter = m.toRows := by
  rw [rowIter, toRows, rows_storage, cols_storage]
  by_cases hcols : m.cols = 0
  · have hdata : m.storage.data = [] := by
      rw [← List.length_eq_zero_iff, length_data_storage, hcols, Nat.mul_zero]
    rw [if_pos hcols, hdata, pieces_nil]
  · have hwidth : ∀ row ∈ (List.range m.rows).map fun i => (List.range m.cols).map (m.entry i),
        row.length = m.cols := by simp
    have h := pieces_flatten (Nat.pos_of_ne_zero hcols) hwidth
    rw [List.length_map, List.length_range, ← data_storage] at h
    rw [if_neg hcols, max_eq_left (Nat.pos_of_ne_zero hcols), h]

/-! ## Augmented matrices -/

/-- A square matrix without columns has no rows either. -/
theorem toRows_of_square {m : DenseMatrix α} (hsquare : m.rows = m.cols) :
    m.toRows = (List.range m.rows).map fun i => (List.range m.cols).map (m.entry i) := by
  rw [toRows]
  by_cases hcols : m.cols = 0
  · rw [if_pos hcols, hsquare, hcols]
    rfl
  · rw [if_neg hcols]

theorem map_getD_range {xs : List α} {n : ℕ} (h : xs.length = n) :
    (List.range n).map (fun i => xs.getD i 0) = xs := by
  subst h
  refine List.ext_getElem (by simp) fun i hi hi' => ?_
  simp [List.getD_eq_getElem?_getD, hi']

theorem foldl_appendEquation {m : DenseMatrix α} {rhs : List α} (hsquare : m.rows = m.cols)
    (hrhs : rhs.length = m.rows) :
    (m.toRows.zip rhs).foldl appendEquation [] =
      (ofFn m.rows (m.rows + 1) fun i j =>
        if j < m.rows then m.entry i j else rhs.getD i 0).storage.data := by
  have happend : (appendEquation : List α → List α × α → List α) =
      fun data equation => data ++ (equation.1 ++ [equation.2]) := by
    funext data equation
    exact List.append_assoc _ _ _
  have hzip : m.toRows.zip rhs = (List.range m.rows).map fun i =>
      ((List.range m.cols).map (m.entry i), rhs.getD i 0) := by
    rw [toRows_of_square hsquare]
    conv_lhs => rw [← map_getD_range hrhs]
    exact List.zip_map'
  rw [happend, List.foldl_append_eq_append, List.nil_append, hzip, List.map_map, storage, data_ofFn]
  congr 1
  apply List.map_congr_left
  intro i _
  have hrow : (List.range m.rows).map (fun j => if j < m.rows then m.entry i j else rhs.getD i 0) =
      (List.range m.cols).map (m.entry i) := by
    rw [← hsquare]
    apply List.map_congr_left
    intro j hj
    rw [if_pos (List.mem_range.mp hj)]
  rw [List.range_succ, List.map_append, hrow, List.map_singleton, if_neg (lt_irrefl _)]
  rfl

theorem augment_eq {m : DenseMatrix α} (rhs : List α)
    (hwords : m.rows * (m.rows + 1) < Guarded.wordCount) :
    m.storage.augment rhs = stored (m.augment rhs) := by
  rw [augment, DenseMatrix.augment, checkSquare, isSquare]
  by_cases hsquare : m.rows = m.cols
  · have hrows : ¬ m.storage.rows ≠ m.storage.cols := not_not.mpr hsquare
    rw [if_neg hrows, if_pos (beq_iff_eq.mpr hsquare)]
    by_cases hrhs : rhs.length = m.rows
    · have hlength : ¬ rhs.length ≠ m.storage.rows := not_not.mpr hrhs
      rw [if_neg hlength, rowIter_storage, foldl_appendEquation hsquare hrhs]
      change fromVec _ m.rows (m.rows + 1) = stored (if rhs.length = m.rows then _ else _)
      rw [if_pos hrhs, fromVec_eq (Or.inr hwords), ofArray, dif_pos (by simp [storage, size_eq])]
      rfl
    · have hlength : rhs.length ≠ m.storage.rows := hrhs
      rw [if_pos hlength]
      change _ = stored (if rhs.length = m.rows then _ else _)
      rw [if_neg hrhs]
      rfl
  · have hrows : m.storage.rows ≠ m.storage.cols := hsquare
    rw [if_pos hrows, if_neg (by simpa using hsquare)]
    rfl

/-! ## Zeros and ones -/

theorem zeros_eq {rows cols : ℕ} (hwords : rows * cols < Guarded.wordCount) :
    zeros rows cols = (DenseMatrix.zeros rows cols : DenseMatrix α).storage := by
  rw [zeros, wrap, Nat.mod_eq_of_lt hwords]
  refine storage_eq rfl rfl List.length_replicate fun i (hi : i < rows) j (hj : j < cols) => ?_
  have hzero : (DenseMatrix.zeros rows cols : DenseMatrix α).entry i j = 0 := entry_ofFn _ hi hj
  rw [hzero]
  exact List.getElem?_replicate_of_lt (index_lt hi hj)

variable [One α]

/-- The entries of an identity matrix as long as only the rows above row `i` have their ones. -/
def onesBefore (n i : ℕ) : DenseMatrix α :=
  ofFn n n fun row j => if row < i ∧ row = j then 1 else 0

theorem entry_onesBefore {n i row j : ℕ} (hrow : row < n) (hj : j < n) :
    (onesBefore n i : DenseMatrix α).entry row j = if row < i ∧ row = j then 1 else 0 :=
  entry_ofFn _ hrow hj

theorem replaceCells_onesBefore (n i : ℕ) :
    (onesBefore n i : DenseMatrix α).replaceCells i i (i + 1) (fun _ => 1) =
      onesBefore n (i + 1) := by
  refine ext_entry rfl rfl fun row (hrow : row < n) j (hj : j < n) => ?_
  rw [entry_replaceCells (by exact hrow) (by exact hj), entry_onesBefore hrow hj,
    entry_onesBefore hrow hj]
  by_cases h : row = i ∧ j = i
  · rw [if_pos (by omega), if_pos (by omega)]
  · rw [if_neg (by omega)]
    exact if_congr (by omega) rfl rfl

theorem placeOne_onesBefore {n i : ℕ} (hi : i < n) :
    placeOne n (onesBefore n i : DenseMatrix α).storage.data i =
      .ok (onesBefore n (i + 1) : DenseMatrix α).storage.data := by
  have hitem : guarded (Guarded.item (onesBefore n i : DenseMatrix α).storage.data (i * n + i)) =
      .ok ((onesBefore n i : DenseMatrix α).entry i i) := item_storage hi hi
  rw [placeOne, hitem, ← replaceCells_onesBefore, ← set_storage hi hi]
  rfl

theorem identity_eq {n : ℕ} (hwords : n * n < Guarded.wordCount) :
    identity n = .ok (DenseMatrix.identity n : DenseMatrix α).storage := by
  have hstart : (onesBefore n 0 : DenseMatrix α) = DenseMatrix.zeros n n := by
    simp [onesBefore, DenseMatrix.zeros]
  have hend : (onesBefore n n : DenseMatrix α) = DenseMatrix.identity n := by
    refine ext_entry rfl rfl fun row (hrow : row < n) j (hj : j < n) => ?_
    rw [entry_onesBefore hrow hj, DenseMatrix.identity, entry_ofFn _ hrow hj]
    exact if_congr (by omega) rfl rfl
  have hzeros := congrArg Storage.data (zeros_eq (α := α) hwords)
  have hloop : (List.range' 0 n).foldlM (placeOne n) (List.replicate (wrap (n * n)) 0) =
      .ok (DenseMatrix.identity n : DenseMatrix α).storage.data := by
    apply Guarded.loop_eq fun i => (onesBefore n i : DenseMatrix α).storage.data
    · rw [hstart, ← hzeros]
      rfl
    · rw [Nat.zero_add, hend]
    · intro i _ hi
      exact placeOne_onesBefore (by omega)
  rw [identity, hloop]
  rfl

end

/-! ## Parts, texts and documents -/

theorem coefficients_eq [Scalar α] {m : DenseMatrix α}
    (hwords : m.rows * m.cols < Guarded.wordCount) (hrows : m.rows + 1 < Guarded.wordCount) :
    m.storage.coefficients = stored m.coefficients := by
  rw [coefficients, wrap, DenseMatrix.coefficients, checkAugmented, isAugmented]
  by_cases h : 1 ≤ m.rows ∧ m.cols = m.rows + 1
  · have haugmented : 1 ≤ m.storage.rows ∧
        m.storage.cols = (m.storage.rows + 1) % Guarded.wordCount :=
      ⟨h.1, h.2.trans (Nat.mod_eq_of_lt hrows).symm⟩
    rw [if_pos haugmented, if_pos (by simpa using h)]
    have hzero : 0 + m.rows < Guarded.wordCount := by omega
    exact block_storage hwords hzero hzero
  · have haugmented : ¬ (1 ≤ m.storage.rows ∧
        m.storage.cols = (m.storage.rows + 1) % Guarded.wordCount) :=
      fun hin => h ⟨hin.1, hin.2.trans (Nat.mod_eq_of_lt hrows)⟩
    rw [if_neg haugmented, if_neg (by simpa using h)]
    rfl

theorem parse_eq (text : String) : parse text = stored (Exchange.read text) := by
  rw [parse, Exchange.read]
  cases Exchange.content text with
  | nil => rfl
  | cons first rest =>
    obtain ⟨number, line⟩ := first
    dsimp only
    cases hsize : Exchange.readSize line with
    | error fault => rfl
    | ok n =>
      obtain ⟨-, -, hfits⟩ := Exchange.readSize_eq_ok_iff.mp hsize
      dsimp only
      cases Exchange.readEquations n number n rest with
      | error e => rfl
      | ok rows => exact fromVec_eq (Or.inr hfits)

/-- A document that is accepted as a matrix is read into memory as that matrix. -/
theorem deserialise_eq_some_iff {d : Document} {data : List Float} {rows cols : ℕ}
    (hparts : parts? d = some (data, rows, cols)) (hwords : data.length < Guarded.wordCount)
    (s : Storage Float) :
    deserialise d = some (.ok s) ↔ ∃ m, ofDocument d = .ok m ∧ m.storage = s := by
  rw [deserialise, ofDocument, hparts]
  dsimp only [Option.map_some]
  rw [fromVec_eq (Or.inl hwords), Option.some_inj]
  cases ofArray data.toArray rows cols with
  | error e => simp [stored, Except.mapError, Except.map]
  | ok m => simp [stored, Except.mapError, Except.map]

end DenseSystem.Storage
