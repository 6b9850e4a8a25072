import Mathlib.Tactic
import DenseSystem.Proofs.Agreement
import DenseSystem.Proofs.Rank.Echelon
import DenseSystem.Proofs.Solver.Run

/-! # What a last column adds to a rank

The reduction of a matrix treats its first columns as if there were no others. So the rank without
the last column is the number of pivots found before that column is searched, and the search adds
one pivot or none. Nothing is used of the arithmetic.
-/
namespace DenseSystem

namespace DenseMatrix

variable {α : Type} [Scalar α]

section Lockstep

variable {a b : DenseMatrix α} {width found col p : ℕ}

/-- Subtracting the same pivot row keeps shared columns the same. -/
theorem AgreeFrom.subtracted (h : AgreeFrom 0 width a b) (hfound : found ≤ p) (hp : p < a.rows)
    (hcol : col < width) :
    AgreeFrom 0 width (a.subtracted found col p) (b.subtracted found col p) := by
  refine ⟨h.rows_eq, h.left_le, h.right_le, fun i _ hi j hj => ?_⟩
  rw [rows_subtracted] at hi
  have hleft := h.left_le
  have hright := h.right_le
  have hrows := h.rows_eq
  have hsource := h.entry_eq _ (Nat.zero_le _) (broughtUp_lt hp hfound hi)
  by_cases hdone : i ≤ found ∨ j < col
  · rw [entry_subtracted_of_done hi (by omega) hdone,
      entry_subtracted_of_done (by omega) (by omega) hdone, hsource j hj]
  · have hfactor : a.factor found col p i = b.factor found col p i := by
      rw [factor, factor, hsource col hcol, h.entry_eq p (Nat.zero_le p) hp col hcol]
    rw [entry_subtracted hp hfound hi (by omega) (by omega) (by omega) (by omega),
      entry_subtracted (by omega) hfound (by omega) (by omega) (by omega) (by omega) (by omega),
      hfactor, hsource j hj, h.entry_eq p (Nat.zero_le p) hp j hj]

/-- As long as shared columns are searched, both reductions find the same pivots. -/
theorem AgreeFrom.echelon (h : AgreeFrom 0 width a b) :
    ∀ k ≤ width, AgreeFrom 0 width (a.echelon k).1 (b.echelon k).1 ∧
      (a.echelon k).2 = (b.echelon k).2 := by
  intro k hk
  induction k with
  | zero => exact ⟨h, rfl⟩
  | succ k ih =>
    obtain ⟨hwork, hfound⟩ := ih (by omega)
    have hsearch : (a.echelon k).1.nonzeroRow? k (a.echelon k).2 =
        (b.echelon k).1.nonzeroRow? k (a.echelon k).2 :=
      (hwork.mono (Nat.zero_le _)).nonzeroRow?_eq hk
    rw [DenseMatrix.echelon, DenseMatrix.echelon, ← hfound]
    cases hp : (a.echelon k).1.nonzeroRow? k (a.echelon k).2 with
    | none =>
      rw [echelonStep_of_none hp, echelonStep_of_none (hsearch ▸ hp)]
      exact ⟨hwork, rfl⟩
    | some p =>
      obtain ⟨hle, hlt, -⟩ := nonzeroRow?_spec hp
      rw [echelonStep_of_some hp, echelonStep_of_some (hsearch ▸ hp)]
      exact ⟨hwork.subtracted hle hlt hk, rfl⟩

end Lockstep

theorem rank_le (m : DenseMatrix α) : m.rank ≤ m.rows ∧ m.rank ≤ m.cols := by
  obtain ⟨-, -, hrows, hcols⟩ := m.shape_echelon m.cols
  rw [rank_eq_echelon]
  exact ⟨hrows, hcols⟩

def firstColumns (m : DenseMatrix α) (width : ℕ) : DenseMatrix α := ofFn m.rows width m.entry

theorem block_eq_firstColumns {m : DenseMatrix α} {width : ℕ} (h : width ≤ m.cols) :
    m.block 0 0 m.rows width = .ok (m.firstColumns width) := by
  rw [block, if_pos (by omega)]
  simp only [Nat.zero_add]
  rfl

theorem agreeFrom_firstColumns {m : DenseMatrix α} {width : ℕ} (h : width ≤ m.cols) :
    AgreeFrom 0 width m (m.firstColumns width) :=
  ⟨rfl, h, le_rfl, fun _ _ hi _ hj => (entry_ofFn m.entry hi hj).symm⟩

theorem rank_firstColumns {m : DenseMatrix α} {width : ℕ} (h : width ≤ m.cols) :
    (m.firstColumns width).rank = (m.echelon width).2 := by
  rw [rank_eq_echelon]
  exact ((agreeFrom_firstColumns h).echelon width le_rfl).2.symm

theorem echelon_le_succ (m : DenseMatrix α) (k : ℕ) : (m.echelon k).2 ≤ (m.echelon (k + 1)).2 := by
  rw [DenseMatrix.echelon]
  cases h : (m.echelon k).1.nonzeroRow? k (m.echelon k).2 with
  | none => rw [echelonStep_of_none h]
  | some p =>
    rw [echelonStep_of_some h]
    exact Nat.le_succ _

/-- One more column adds one to the rank or nothing. -/
theorem rank_firstColumns_le {m : DenseMatrix α} {width : ℕ} (h : m.cols = width + 1) :
    (m.firstColumns width).rank ≤ m.rank ∧ m.rank ≤ (m.firstColumns width).rank + 1 := by
  rw [rank_firstColumns (by omega), rank_eq_echelon, h]
  exact ⟨m.echelon_le_succ width, m.echelon_succ_le width⟩

end DenseMatrix

/-- What a classification says when the ranks differ by one at most. -/
theorem Classification.status_ofRanks_iff {coefficients augmented unknowns : ℕ}
    (hle : coefficients ≤ augmented) (hsucc : augmented ≤ coefficients + 1)
    (hrows : augmented ≤ unknowns) :
    ((ofRanks coefficients augmented unknowns).status = .unique ↔ coefficients = unknowns) ∧
      ((ofRanks coefficients augmented unknowns).status = .infinite ↔
        coefficients = augmented ∧ augmented < unknowns) ∧
      ((ofRanks coefficients augmented unknowns).status = .none ↔
        augmented = coefficients + 1) := by
  unfold ofRanks
  split_ifs with hne hfull
  · refine ⟨iff_of_false (by simp) ?_, iff_of_false (by simp) ?_, iff_of_true rfl ?_⟩ <;> omega
  · refine ⟨iff_of_true rfl hfull, iff_of_false (by simp) ?_, iff_of_false (by simp) ?_⟩ <;> omega
  · refine ⟨iff_of_false (by simp) hfull, iff_of_true rfl ?_, iff_of_false (by simp) ?_⟩ <;> omega

namespace DenseMatrix

variable {α : Type} [Scalar α]

theorem isAugmented_of_coefficients {system a : DenseMatrix α}
    (h : system.coefficients = .ok a) : system.isAugmented = true := by
  by_contra hne
  rw [coefficients, checkAugmented, if_neg hne] at h
  cases h

theorem rank_coefficientPart_le {system : DenseMatrix α} (haug : system.isAugmented = true) :
    system.coefficientPart.rank ≤ system.rank ∧
      system.rank ≤ system.coefficientPart.rank + 1 :=
  rank_firstColumns_le (isAugmented_iff.mp haug).2

/-- The coefficients alone decide whether a unique solution is promised. -/
theorem status_classification_eq_unique_iff {system : DenseMatrix α}
    (haug : system.isAugmented = true) :
    system.classification.status = .unique ↔ system.coefficientPart.rank = system.rows := by
  obtain ⟨hle, hsucc⟩ := rank_coefficientPart_le haug
  exact (Classification.status_ofRanks_iff hle hsucc system.rank_le.1).1

end DenseMatrix

/-- Over doubles, NaN and infinities included, a rank is bounded by both dimensions, and a last
column raises it by one or not at all. So a system is classified as uniquely solvable exactly when
the coefficients have full rank, whatever the right-hand side, as solvable in many ways when both
ranks are the same and smaller, and as unsolvable when the right-hand side raises the rank. -/
theorem classify_by_rank_of_coefficients (m : DenseMatrix Float) :
    m.rank ≤ min m.rows m.cols ∧
      (1 ≤ m.cols → ∃ rest, m.block 0 0 m.rows (m.cols - 1) = .ok rest ∧
        rest.rank ≤ m.rank ∧ m.rank ≤ rest.rank + 1) ∧
      (m.isAugmented = true → ∃ a c, m.coefficients = .ok a ∧ classify m = .ok c ∧
        a.rank ≤ m.rank ∧ m.rank ≤ a.rank + 1 ∧ a.rank ≤ m.rows ∧ m.rank ≤ m.rows ∧
        (c.status = .unique ↔ a.rank = m.rows) ∧
        (c.status = .infinite ↔ a.rank = m.rank ∧ m.rank < m.rows) ∧
        (c.status = .none ↔ m.rank = a.rank + 1) ∧ c.status ≠ .error ∧
        ∀ other : DenseMatrix Float, other.coefficients = .ok a →
          ∃ d, classify other = .ok d ∧ (d.status = .unique ↔ c.status = .unique)) := by
  obtain ⟨hrows, hcols⟩ := m.rank_le
  refine ⟨le_min hrows hcols, fun hpos => ?_, fun haug => ?_⟩
  · exact ⟨_, DenseMatrix.block_eq_firstColumns (Nat.sub_le _ _),
      DenseMatrix.rank_firstColumns_le (by omega)⟩
  · obtain ⟨hle, hsucc⟩ := DenseMatrix.rank_coefficientPart_le haug
    obtain ⟨hunique, hinfinite, hnone⟩ := Classification.status_ofRanks_iff hle hsucc hrows
    refine ⟨_, _, DenseMatrix.coefficients_of_isAugmented haug,
      DenseMatrix.classify_of_isAugmented haug, hle, hsucc, hle.trans hrows, hrows, hunique,
      hinfinite, hnone, m.status_classification_ne_error, fun other hother => ?_⟩
    have haug' := DenseMatrix.isAugmented_of_coefficients hother
    have hsame : other.coefficientPart = m.coefficientPart :=
      Except.ok.inj ((DenseMatrix.coefficients_of_isAugmented haug').symm.trans hother)
    have hheight : other.rows = m.rows := by simpa using congrArg DenseMatrix.rows hsame
    refine ⟨_, DenseMatrix.classify_of_isAugmented haug', ?_⟩
    rw [DenseMatrix.status_classification_eq_unique_iff haug', hsame, hheight, ← hunique]
    rfl

/-- The first pivot is NaN, and the elimination with it leaves nothing but NaN. -/
theorem classify_nan_and_infinity :
    let system : DenseMatrix Float := ⟨2, 3, #[0 / 0, 1 / 0, 1, 0, 0, -1 / 0], rfl⟩
    system.isAugmented = true ∧ system.rank ≤ 2 ∧
      ∃ c, classify system = .ok c ∧ c.status = .unique ∧ c.status ≠ .error := by
  intro system
  have haug : system.isAugmented = true := rfl
  obtain ⟨hrank, -, haugmented⟩ := classify_by_rank_of_coefficients system
  obtain ⟨a, c, ha, hc, -, -, -, -, hunique, -, -, herror, -⟩ := haugmented haug
  have hfull : system.coefficientPart.rank = 2 := by decide +kernel
  rw [DenseMatrix.coefficients_of_isAugmented haug] at ha
  cases ha
  exact ⟨haug, hrank.trans (min_le_left _ _), c, hc, hunique.mpr hfull, herror⟩

end DenseSystem
