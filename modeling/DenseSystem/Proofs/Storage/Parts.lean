import Mathlib.Tactic
import DenseSystem.Proofs.Solver.Forward
import DenseSystem.Proofs.Storage.History

/-! # Parts of a matrix

An augmented matrix is put together by interleaving rows of coefficients with a right-hand side, and
taken apart into a block, a slice for each row, and a column, an entry for each row. Each of these
routines computes positions of its own. They agree: nothing is lost on the way into an augmented
matrix or out of one, and a block of a block is a block.
-/
namespace DenseSystem

def Storage.rhs {α : Type} (s : Storage α) : Except Fault (List α) :=
  if 1 ≤ s.rows ∧ s.cols = wrap (s.rows + 1) then s.column s.rows
  else .error (.error (.invalidShape s.rows s.cols .notAugmented))

namespace DenseMatrix

open Storage

variable {α : Type} [Scalar α] {a m part : DenseMatrix α} {b : List α}
  {row col rows cols row' col' rows' cols' : ℕ}

/-- `system` is what `a` and `b` are put together to, and what they are taken out of, as matrices and
in memory. -/
structure Augments (a : DenseMatrix α) (b : List α) (system : DenseMatrix α) : Prop where
  isAugmented : system.isAugmented = true
  augment : a.augment b = .ok system
  coefficients : system.coefficients = .ok a
  rhs : system.rhs = .ok b
  augment_storage : a.storage.augment b = .ok system.storage
  coefficients_storage : system.storage.coefficients = .ok a.storage
  rhs_storage : system.storage.rhs = .ok b

/-- `part` is the `rows x cols` block of `m` at `row`, `col`: its cells are those of `m`, by every way
to a cell, and so are its own blocks. -/
structure IsBlock (m : DenseMatrix α) (row col rows cols : ℕ) (part : DenseMatrix α) : Prop where
  rows_eq : part.rows = rows
  cols_eq : part.cols = cols
  cell : ∀ i < rows, ∀ j < cols, ∃ value,
    m.get (row + i) (col + j) = .ok value ∧ part.get i j = .ok value ∧
      m.storage.Holds (row + i) (col + j) value ∧ part.storage.Holds i j value
  block : ∀ row' col' rows' cols', row' + rows' ≤ rows → col' + cols' ≤ cols → ∃ inner,
    part.block row' col' rows' cols' = .ok inner ∧
      m.block (row + row') (col + col') rows' cols' = .ok inner ∧
      part.storage.block row' col' rows' cols' = .ok inner.storage ∧
      m.storage.block (row + row') (col + col') rows' cols' = .ok inner.storage

/-! ## Right-hand sides -/

theorem rhsPart_withRhs (hlength : b.length = a.rows) : (a.withRhs b).rhsPart = b := by
  conv_rhs => rw [← map_getD_range hlength]
  apply List.map_congr_left
  intro i hi
  rw [rows_withRhs, List.mem_range] at hi
  rw [rows_withRhs, withRhs, entry_ofFn _ hi (Nat.lt_succ_self _), if_neg (lt_irrefl _)]

theorem withRhs_parts (haug : m.isAugmented = true) :
    m.coefficientPart.withRhs m.rhsPart = m := by
  obtain ⟨-, hcols⟩ := isAugmented_iff.mp haug
  refine ext_entry rfl hcols.symm fun i (hi : i < m.rows) j (hj : j < m.rows + 1) => ?_
  rw [withRhs, entry_ofFn _ (by exact hi) (by exact hj), rows_coefficientPart]
  by_cases hleft : j < m.rows
  · rw [if_pos hleft, m.entry_coefficientPart hi hleft]
  · obtain rfl : j = m.rows := by omega
    rw [if_neg hleft]
    simp [rhsPart, hi]

/-- An `n x n` matrix that fits into memory leaves room for a further column. -/
theorem mul_succ_lt_wordCount {n : ℕ} (h : n * n < Guarded.wordCount) :
    n * (n + 1) < Guarded.wordCount := by
  have hwords : Guarded.wordCount = 2 ^ 32 * 2 ^ 32 := rfl
  have hn : n < 2 ^ 32 := by
    by_contra hlarge
    have := Nat.mul_le_mul (not_lt.mp hlarge) (not_lt.mp hlarge)
    omega
  calc n * (n + 1) ≤ n * 2 ^ 32 := Nat.mul_le_mul_left n hn
    _ < 2 ^ 32 * 2 ^ 32 := Nat.mul_lt_mul_of_pos_right hn (Nat.two_pow_pos 32)
    _ = Guarded.wordCount := hwords.symm

theorem rhs_storage (hrows : m.rows + 1 < Guarded.wordCount) :
    m.storage.rhs = m.rhs.mapError .error := by
  rw [Storage.rhs, wrap, DenseMatrix.rhs, checkAugmented, rows_storage, cols_storage,
    Nat.mod_eq_of_lt hrows]
  by_cases haug : m.isAugmented = true
  · rw [if_pos haug, if_pos (isAugmented_iff.mp haug)]
    exact column_storage m m.rows
  · rw [if_neg haug, if_neg (mt isAugmented_iff.mpr haug)]
    rfl

theorem augments_withRhs (ha : a.storage.Filled) (hpos : 1 ≤ a.rows) (hsquare : a.isSquare = true)
    (hlength : b.length = a.rows) : Augments a b (a.withRhs b) := by
  have hwords : a.rows * (a.rows + 1) < Guarded.wordCount := by
    have h := ha.words
    rw [rows_storage, cols_storage, ← rows_eq_cols_of_isSquare hsquare] at h
    exact mul_succ_lt_wordCount h
  have hrows : a.rows + 1 < Guarded.wordCount :=
    (Nat.le_mul_of_pos_left (a.rows + 1) hpos).trans_lt hwords
  have haug : (a.withRhs b).isAugmented = true := isAugmented_iff.mpr ⟨hpos, rfl⟩
  have haugment := augment_eq hsquare hlength
  have hcoefficients : (a.withRhs b).coefficients = .ok a := by
    rw [coefficients_of_isAugmented haug, coefficientPart_withRhs hsquare]
  have hrhs : (a.withRhs b).rhs = .ok b := by
    rw [rhs_of_isAugmented haug, rhsPart_withRhs hlength]
  exact {
    isAugmented := haug
    augment := haugment
    coefficients := hcoefficients
    rhs := hrhs
    augment_storage := (Storage.augment_eq b hwords).trans (congrArg stored haugment)
    coefficients_storage :=
      (coefficients_eq (m := a.withRhs b) hwords hrows).trans (congrArg stored hcoefficients)
    rhs_storage :=
      (rhs_storage (m := a.withRhs b) hrows).trans (congrArg (Except.mapError Fault.error) hrhs) }

theorem augments_parts (hm : m.storage.Filled) (haug : m.isAugmented = true) :
    Augments m.coefficientPart m.rhsPart m := by
  obtain ⟨hpos, hcols⟩ := isAugmented_iff.mp haug
  have hfilled : m.coefficientPart.storage.Filled := by
    have hwords : m.rows * m.cols < Guarded.wordCount := hm.words
    have hle : m.rows * m.rows ≤ m.rows * m.cols := Nat.mul_le_mul_left _ (by omega)
    exact filled_storage (hle.trans_lt hwords)
  have hlength : m.rhsPart.length = m.coefficientPart.rows := by simp [rhsPart]
  have h := augments_withRhs hfilled hpos (beq_self_eq_true _) hlength
  rwa [withRhs_parts haug] at h

/-! ## Blocks -/

theorem block_eq_ok_iff : m.block row col rows cols = .ok part ↔
    (row + rows ≤ m.rows ∧ col + cols ≤ m.cols) ∧
      part = ofFn rows cols fun i j => m.entry (row + i) (col + j) := by
  rw [block]
  split_ifs with hfits
  · simp [hfits, eq_comm]
  · simp [hfits]

theorem block_block (h : m.block row col rows cols = .ok part) (hrows : row' + rows' ≤ rows)
    (hcols : col' + cols' ≤ cols) :
    part.block row' col' rows' cols' = m.block (row + row') (col + col') rows' cols' := by
  obtain ⟨hfits, rfl⟩ := block_eq_ok_iff.mp h
  rw [block, block, if_pos ⟨hrows, hcols⟩, if_pos (by omega)]
  refine congrArg Except.ok (ext_entry rfl rfl ?_)
  intro i (hi : i < rows') j (hj : j < cols')
  rw [entry_ofFn _ hi hj, entry_ofFn _ hi hj, entry_ofFn _ (by omega) (by omega), Nat.add_assoc,
    Nat.add_assoc]

theorem isBlock_of_block (hm : m.storage.Filled) (hrow : row + rows < Guarded.wordCount)
    (hcol : col + cols < Guarded.wordCount) (h : m.block row col rows cols = .ok part) :
    IsBlock m row col rows cols part := by
  have hstored : m.storage.block row col rows cols = .ok part.storage :=
    (block_storage hm.words hrow hcol).trans (congrArg stored h)
  have hpart : part.storage.Filled := filled_of_block hstored
  obtain ⟨hfits, heq⟩ := block_eq_ok_iff.mp h
  have hrows : part.rows = rows := congrArg DenseMatrix.rows heq
  have hcols : part.cols = cols := congrArg DenseMatrix.cols heq
  refine ⟨hrows, hcols, fun i hi j hj => ?_, fun row' col' rows' cols' hrow' hcol' => ?_⟩
  · have hentry : part.entry i j = m.entry (row + i) (col + j) := by rw [heq, entry_ofFn _ hi hj]
    have hi' : row + i < m.rows := by omega
    have hj' : col + j < m.cols := by omega
    rw [← hrows] at hi
    rw [← hcols] at hj
    refine ⟨m.entry (row + i) (col + j), get_of_lt hi' hj', ?_,
      holds_storage hm.words hi' hj', ?_⟩
    · rw [get_of_lt hi hj, hentry]
    · rw [← hentry]
      exact holds_storage hpart.words hi hj
  · have hinner := block_block h hrow' hcol'
    have hfits' : row + row' + rows' ≤ m.rows ∧ col + col' + cols' ≤ m.cols := by omega
    have hwhole : m.block (row + row') (col + col') rows' cols' = .ok _ := if_pos hfits'
    rw [hwhole] at hinner
    exact ⟨_, hinner, hwhole,
      (block_storage hpart.words (by omega) (by omega)).trans (congrArg stored hinner),
      (block_storage hm.words (by omega) (by omega)).trans (congrArg stored hwhole)⟩

end DenseMatrix

open Storage DenseMatrix in
/-- Square coefficients and a right-hand side of the same length make up a system from which they can
be taken again, and the parts of any system make up this system. Where no sum of the arguments
exceeds a machine word, a block is taken exactly if it lies inside of the matrix, empty blocks and
those at the far edge included, and it is a view of the cells that it was taken from. -/
theorem parts_and_wholes {m : DenseMatrix Float} (hm : m.storage.Filled) :
    (∀ b : List Float, 1 ≤ m.rows → m.cols = m.rows → b.length = m.rows →
      ∃ system, Augments m b system) ∧
    (m.isAugmented = true → ∃ a b, Augments a b m) ∧
    ∀ row col rows cols, row + rows < Guarded.wordCount → col + cols < Guarded.wordCount →
      m.storage.block row col rows cols = stored (m.block row col rows cols) ∧
      ((∃ part, m.block row col rows cols = .ok part) ↔
        row + rows ≤ m.rows ∧ col + cols ≤ m.cols) ∧
      ∀ part, m.block row col rows cols = .ok part → IsBlock m row col rows cols part := by
  refine ⟨fun b hpos hsquare hlength => ?_, fun haug => ⟨_, _, augments_parts hm haug⟩,
    fun row col rows cols hrow hcol => ?_⟩
  · exact ⟨_, augments_withRhs hm hpos (beq_iff_eq.mpr hsquare.symm) hlength⟩
  · refine ⟨block_storage hm.words hrow hcol, ?_, fun part => isBlock_of_block hm hrow hcol⟩
    simp only [block_eq_ok_iff, exists_and_left, exists_eq, and_true]

open Storage DenseMatrix in
/-- Coefficients with a NaN, a negative zero and an infinity, and a block without columns at the far
edge of their system. -/
theorem parts_and_wholes_beside_nan :
    let a : DenseMatrix Float := ⟨2, 2, #[0.0 / 0.0, -0.0, 1.0 / 0.0, 4], rfl⟩
    let system : DenseMatrix Float := ⟨2, 3, #[0.0 / 0.0, -0.0, 5, 1.0 / 0.0, 4, -0.0], rfl⟩
    a.storage.Filled ∧ system.storage.Filled ∧ Augments a [5, -0.0] system ∧
      (∃ a' b', Augments a' b' system) ∧ system.block 0 3 2 0 = .ok ⟨2, 0, #[], rfl⟩ ∧
      IsBlock system 0 3 2 0 ⟨2, 0, #[], rfl⟩ := by
  intro a system
  have ha : a.storage.Filled := ⟨rfl, by decide⟩
  have hsystem : system.storage.Filled := ⟨rfl, by decide⟩
  obtain ⟨made, hmade⟩ := (parts_and_wholes ha).1 [5, -0.0] (by decide) rfl rfl
  have haugment : a.augment [5, -0.0] = .ok system :=
    congrArg Except.ok (ext_entry rfl rfl (by decide +kernel))
  have hmade' : made = system := Except.ok.inj (hmade.augment.symm.trans haugment)
  obtain ⟨-, htaken, hblocks⟩ := parts_and_wholes hsystem
  have hedge : system.block 0 3 2 0 = .ok ⟨2, 0, #[], rfl⟩ := rfl
  exact ⟨ha, hsystem, hmade' ▸ hmade, htaken rfl, hedge,
    (hblocks 0 3 2 0 (by decide) (by decide)).2.2 _ hedge⟩

end DenseSystem
