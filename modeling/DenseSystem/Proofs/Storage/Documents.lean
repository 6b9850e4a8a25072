import Mathlib.Tactic
import DenseSystem.Proofs.Double.Backward
import DenseSystem.Proofs.Storage.History

/-! # Matrices in documents

Documents carry finite numbers and counts as they are, and have null in the place of other numbers,
which is not a number. So a matrix is read back from its document, or refused, as its entries are
finite or not. Whatever document has the form of a matrix is judged by its entries and dimensions,
as is a list of entries: they have to fit, and no overflow makes them do so.
-/
namespace DenseSystem

namespace Document

/-- A matrix as a record, whether or not its entries fit its dimensions. -/
def matrix (data : List Float) (rows cols : ℕ) : Document :=
  .record [("data", .list (data.map .real)), ("rows", .count rows), ("cols", .count cols)]

/-! ## Numbers -/

theorem number_of_isFinite {x : Float} (h : x.isFinite = true) : number x = .real x := if_pos h

theorem number_of_not_isFinite {x : Float} (h : x.isFinite = false) : number x = .null :=
  if_neg (by simp [h])

theorem count?_count {n : ℕ} (h : n < Guarded.wordCount) : (count n).count? = some n := by
  have hsize : n < UInt64.size := h
  rw [count, count?, if_pos ⟨Int.natCast_nonneg n, Int.ofNat_lt.mpr hsize⟩, Int.toNat_natCast]

theorem numbers?_real (xs : List Float) : (list (xs.map real)).numbers? = some xs := by
  change (xs.map real).mapM number? = some xs
  induction xs with
  | nil => rfl
  | cons x xs ih =>
    rw [List.map_cons, List.mapM_cons, ih]
    rfl

theorem numbers_of_isFinite {xs : List Float} (h : ∀ x ∈ xs, x.isFinite = true) :
    numbers xs = .list (xs.map real) :=
  congrArg list (List.map_congr_left fun x hx => number_of_isFinite (h x hx))

theorem numbers?_of_null {items : List Document} (h : null ∈ items) :
    (list items).numbers? = none := by
  change items.mapM number? = none
  induction items with
  | nil => cases h
  | cons item items ih =>
    rw [List.mapM_cons]
    rcases List.mem_cons.mp h with rfl | h
    · rfl
    · rw [ih h]
      cases number? item <;> rfl

end Document

namespace DenseMatrix

open Document Exchange Storage

variable {m : DenseMatrix Float} {data : List Float} {rows cols i j : ℕ}

/-- Whichever way entries and dimensions come in, they make up the matrix `m`. A read of a cell finds
the entry at its position, and one of anything else does not get to the entries. -/
structure AcceptedAs (data : List Float) (rows cols : ℕ) (m : DenseMatrix Float) : Prop where
  storage : m.storage = ⟨rows, cols, data⟩
  ofArray : DenseMatrix.ofArray data.toArray rows cols = .ok m
  fromVec : Storage.fromVec data rows cols = .ok m.storage
  document : ∀ d, parts? d = some (data, rows, cols) →
    ofDocument d = .ok m ∧ deserialise d = some (.ok m.storage)
  get_inside : ∀ i < rows, ∀ j < cols, ∃ value,
    m.storage.flatIndex i j = .ok (i * cols + j) ∧ data[i * cols + j]? = some value ∧
      m.storage.get i j = .ok value ∧ m.get i j = .ok value
  get_outside : ∀ i j, ¬ (i < rows ∧ j < cols) →
    m.storage.get i j = .error (.error (.indexOutOfBounds i j rows cols)) ∧
      m.get i j = .error (.indexOutOfBounds i j rows cols)

/-- Whichever way entries and dimensions come in, their shape is refused. -/
structure Refused (data : List Float) (rows cols : ℕ) : Prop where
  ofArray : DenseMatrix.ofArray data.toArray rows cols =
    .error (.invalidShape rows cols .dataLength)
  fromVec : Storage.fromVec data rows cols = .error (.error (.invalidShape rows cols .dataLength))
  document : ∀ d, parts? d = some (data, rows, cols) →
    ofDocument d = .error (.rejected (.invalidShape rows cols .dataLength)) ∧
      deserialise d = some (.error (.error (.invalidShape rows cols .dataLength)))

/-! ## Writing -/

theorem parts?_record (data rows cols : Document) :
    parts? (.record [("data", data), ("rows", rows), ("cols", cols)]) = (do
      let data ← data.numbers?
      let rows ← rows.count?
      let cols ← cols.count?
      return (data, rows, cols)) := rfl

theorem parts?_matrix (hrows : rows < Guarded.wordCount) (hcols : cols < Guarded.wordCount) :
    parts? (.matrix data rows cols) = some (data, rows, cols) := by
  rw [matrix, parts?_record, numbers?_real, count?_count hrows, count?_count hcols]
  rfl

theorem toDocument_of_entriesFinite (h : m.EntriesFinite) :
    m.toDocument = .matrix m.storage.data m.rows m.cols := by
  rw [toDocument, numbers_of_isFinite (forall_mem_data_iff.mpr h)]
  rfl

theorem getElem?_numbers (hi : i < m.rows) (hj : j < m.cols) :
    (m.data.toList.map number)[i * m.cols + j]? = some (number (m.entry i j)) := by
  rw [List.getElem?_map]
  exact congrArg (Option.map number) (getElem?_storage hi hj)

/-- One entry that is not a number for a document spoils it. -/
theorem parts?_toDocument_of_not_isFinite (hi : i < m.rows) (hj : j < m.cols)
    (h : (m.entry i j).isFinite = false) : parts? m.toDocument = none := by
  have hnull : null ∈ m.data.toList.map number := by
    rw [← number_of_not_isFinite h]
    exact List.mem_of_getElem? (getElem?_numbers hi hj)
  rw [toDocument, parts?_record, numbers, numbers?_of_null hnull]
  rfl

/-! ## Reading -/

theorem ofDocument_of_parts? {d : Document} (h : parts? d = some (data, rows, cols)) :
    ofDocument d = (DenseMatrix.ofArray data.toArray rows cols).mapError .rejected := by
  rw [ofDocument, h]

theorem deserialise_of_parts? {d : Document} (h : parts? d = some (data, rows, cols)) :
    deserialise d = some (fromVec data rows cols) := by
  rw [deserialise, h]
  rfl

theorem acceptedAs_of_storage (hwords : data.length < Guarded.wordCount)
    (h : m.storage = ⟨rows, cols, data⟩) : AcceptedAs data rows cols m := by
  have hrows : m.rows = rows := congrArg Storage.rows h
  have hcols : m.cols = cols := congrArg Storage.cols h
  have hdata : m.storage.data = data := congrArg Storage.data h
  subst hrows hcols hdata
  have hofArray : DenseMatrix.ofArray m.storage.data.toArray m.rows m.cols = .ok m :=
    ofArray_eq_ok_iff.mpr ⟨rfl, rfl, rfl⟩
  have hfromVec : Storage.fromVec m.storage.data m.rows m.cols = .ok m.storage :=
    (fromVec_eq (.inl hwords)).trans (congrArg stored hofArray)
  refine ⟨h, hofArray, hfromVec, fun d hd => ⟨?_, ?_⟩, fun i hi j hj => ?_, fun i j hout => ?_⟩
  · rw [ofDocument_of_parts? hd, hofArray]
    rfl
  · rw [deserialise_of_parts? hd, hfromVec]
  · refine ⟨_, flatIndex_storage_of_lt hi hj, getElem?_storage hi hj, ?_, get_of_lt hi hj⟩
    rw [get_storage, get_of_lt hi hj]
    rfl
  · rw [get_storage, get_of_not_lt hout]
    exact ⟨rfl, rfl⟩

theorem refused_of_ne (hwords : data.length < Guarded.wordCount) (h : rows * cols ≠ data.length) :
    Refused data rows cols := by
  have hofArray : DenseMatrix.ofArray data.toArray rows cols =
      .error (.invalidShape rows cols .dataLength) := by
    rw [DenseMatrix.ofArray, dif_neg (by simpa using h.symm)]
  have hfromVec : Storage.fromVec data rows cols =
      .error (.error (.invalidShape rows cols .dataLength)) :=
    (fromVec_eq (.inl hwords)).trans (congrArg stored hofArray)
  refine ⟨hofArray, hfromVec, fun d hd => ⟨?_, ?_⟩⟩
  · rw [ofDocument_of_parts? hd, hofArray]
    rfl
  · rw [deserialise_of_parts? hd, hfromVec]

theorem AcceptedAs.not_refused (h : AcceptedAs data rows cols m) : ¬ Refused data rows cols := by
  intro hrefused
  have hboth := h.fromVec.symm.trans hrefused.fromVec
  cases hboth

theorem exists_acceptedAs_iff (hwords : data.length < Guarded.wordCount) :
    (∃ m, AcceptedAs data rows cols m) ↔ rows * cols = data.length := by
  constructor
  · rintro ⟨m, hm⟩
    by_contra hne
    exact hm.not_refused (refused_of_ne hwords hne)
  · intro heq
    obtain ⟨m, hm⟩ := exists_storage (s := ⟨rows, cols, data⟩) heq.symm
    exact ⟨m, acceptedAs_of_storage hwords hm⟩

theorem refused_iff (hwords : data.length < Guarded.wordCount) :
    Refused data rows cols ↔ rows * cols ≠ data.length := by
  refine ⟨fun hrefused heq => ?_, refused_of_ne hwords⟩
  obtain ⟨m, hm⟩ := (exists_acceptedAs_iff hwords).mpr heq
  exact hm.not_refused hrefused

end DenseMatrix

open Storage DenseMatrix in
/-- A matrix of finite entries is read back from its document as it was, and one that has another
entry, which is null in the document, is refused. Any list of doubles is accepted with just those
dimensions whose product, as a natural number, is its length, from whatever document it comes, and
then every cell has its entry in the list; with others its shape is not valid. -/
theorem documents_of_matrices :
    (∀ m : DenseMatrix Float, m.storage.Filled → m.rows < Guarded.wordCount →
      m.cols < Guarded.wordCount →
      ((∀ i < m.rows, ∀ j < m.cols, (m.entry i j).isFinite = true) →
        m.toDocument = .matrix m.storage.data m.rows m.cols ∧ ofDocument m.toDocument = .ok m ∧
          deserialise m.toDocument = some (.ok m.storage)) ∧
      ∀ i < m.rows, ∀ j < m.cols, (m.entry i j).isFinite = false →
        (∃ items, m.toDocument = .record [("data", .list items), ("rows", .count m.rows),
          ("cols", .count m.cols)] ∧ items[i * m.cols + j]? = some .null) ∧
        ofDocument m.toDocument = .error .malformed ∧ deserialise m.toDocument = none) ∧
    ∀ (data : List Float) (rows cols : ℕ), data.length < Guarded.wordCount →
      rows < Guarded.wordCount → cols < Guarded.wordCount →
      parts? (.matrix data rows cols) = some (data, rows, cols) ∧
        ((∃ m, AcceptedAs data rows cols m) ↔ rows * cols = data.length) ∧
        (Refused data rows cols ↔ rows * cols ≠ data.length) := by
  refine ⟨fun m hm hrows hcols => ⟨fun hfinite => ?_, fun i hi j hj hnumber => ?_⟩,
    fun data rows cols hwords hrows hcols => ?_⟩
  · have hwords : m.storage.data.length < Guarded.wordCount := hm.length.trans_lt hm.words
    have hdocument := toDocument_of_entriesFinite hfinite
    have haccepted := acceptedAs_of_storage (m := m) hwords rfl
    rw [hdocument]
    exact ⟨rfl, haccepted.document _ (parts?_matrix hrows hcols)⟩
  · have hparts := parts?_toDocument_of_not_isFinite hi hj hnumber
    refine ⟨⟨_, rfl, ?_⟩, ?_, ?_⟩
    · rw [getElem?_numbers hi hj, Document.number_of_not_isFinite hnumber]
    · rw [ofDocument, hparts]
    · rw [deserialise, hparts]
      rfl
  · exact ⟨parts?_matrix hrows hcols, exists_acceptedAs_iff hwords, refused_iff hwords⟩

open Storage DenseMatrix in
/-- A negative zero comes back and an infinity does not. A product that a machine word would take for
zero does not pass for the length of an empty list, but any number of empty rows does. -/
theorem documents_of_zero_infinity_and_empty_rows :
    let zero : DenseMatrix Float := ⟨2, 1, #[-0.0, 1e308], rfl⟩
    let infinite : DenseMatrix Float := ⟨1, 2, #[1, 1.0 / 0.0], rfl⟩
    zero.storage.Filled ∧ ofDocument zero.toDocument = .ok zero ∧
      infinite.storage.Filled ∧ ofDocument infinite.toDocument = .error .malformed ∧
      wrap (2 ^ 63 * 2) = ([] : List Float).length ∧ Refused [] (2 ^ 63) 2 ∧
      ∃ m, AcceptedAs [] (2 ^ 64 - 1) 0 m := by
  intro zero infinite
  obtain ⟨hround, hshapes⟩ := documents_of_matrices
  have hzero : zero.storage.Filled := ⟨rfl, by decide⟩
  have hinfinite : infinite.storage.Filled := ⟨rfl, by decide⟩
  have hfinite : ∀ i < zero.rows, ∀ j < zero.cols, (zero.entry i j).isFinite = true := by
    decide +kernel
  have hread := (hround zero hzero (by decide) (by decide)).1 hfinite
  have hrefused := (hround infinite hinfinite (by decide) (by decide)).2 0 (by decide) 1 (by decide)
    (by decide +kernel)
  obtain ⟨-, -, hoverflow⟩ := hshapes [] (2 ^ 63) 2 (by decide) (by decide) (by decide)
  obtain ⟨-, hempty, -⟩ := hshapes [] (2 ^ 64 - 1) 0 (by decide) (by decide) (by decide)
  exact ⟨hzero, hread.2.1, hinfinite, hrefused.2.1, by decide, hoverflow.mpr (by decide),
    hempty.mpr rfl⟩

end DenseSystem
