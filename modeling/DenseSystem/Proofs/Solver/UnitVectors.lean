import Mathlib.Tactic
import DenseSystem.Proofs.Double.Finite
import DenseSystem.Proofs.Elimination.SelectedColumns
import DenseSystem.Proofs.Solver.Forward

/-! # The inverse column by column

The columns of the identity that an inversion starts with are the unit vectors, and the elimination
treats each of them as it treats a right-hand side. So the complete elimination with a unit vector
as right-hand side ends with a column of the inverse, to the last bit.
-/
namespace DenseSystem

instance decidableEqError {β : Type} (e : Error) : (x : Except Error β) → Decidable (x = .error e)
  | .ok _ => isFalse nofun
  | .error e' => decidable_of_iff (e' = e) (by rw [Except.error.injEq])

namespace DenseMatrix

variable {α : Type} [Scalar α] {a : DenseMatrix α} {j k : ℕ}

def unitVector (n j : ℕ) : List α := (List.range n).map fun i => if i = j then 1 else 0

@[simp] theorem length_unitVector (n j : ℕ) : (unitVector n j : List α).length = n := by
  simp [unitVector]

theorem getD_unitVector {n i : ℕ} (hi : i < n) (j : ℕ) :
    (unitVector n j : List α).getD i 0 = if i = j then 1 else 0 := by
  simp [unitVector, List.getD_eq_getElem?_getD, hi]

theorem isFinite_unitVector [Spoiling α] (n j : ℕ) :
    (unitVector n j : List α).all Scalar.isFinite = true := by
  rw [unitVector, List.all_map, List.all_eq_true]
  intro i _
  rw [Function.comp_apply]
  split_ifs
  · exact Spoiling.isFinite_one
  · exact Spoiling.isFinite_zero

/-- The unit vector beside a matrix is a column of the identity beside it. -/
theorem selects_besideIdentity (hj : j < a.rows) :
    Selects a.rows (fun i => if i < a.rows then i else a.rows + j) a.besideIdentity
      (a.withRhs (unitVector a.rows j)) where
  rows_eq := rfl
  width_le := Nat.le_succ a.rows
  kept i hi := if_pos hi
  beyond i hi := by
    rw [if_neg (by omega)]
    omega
  inside i _ := by
    have hcols : a.besideIdentity.cols = 2 * a.rows := rfl
    split_ifs <;> omega
  entry_eq i (hi : i < a.rows) c (hc : c < a.rows + 1) := by
    rw [withRhs, entry_ofFn _ hi hc, getD_unitVector hi]
    split_ifs with hleft hij
    · rw [besideIdentity, entry_ofFn _ hi (by omega), if_pos hleft]
    · rw [besideIdentity, entry_ofFn _ hi (by omega), if_neg (by omega), if_pos (by omega)]
    · rw [besideIdentity, entry_ofFn _ hi (by omega), if_neg (by omega), if_neg (by omega)]

/-- Where an inversion and the elimination of a unit vector both succeed, the vector becomes a
column of the inverse. -/
theorem column_inverse (hj : j < a.rows) {b : DenseMatrix α} {x : List α}
    (hinverse : a.inverse = .ok b)
    (hx : (a.withRhs (unitVector a.rows j)).gaussJordan.outcome = .ok (.candidate x)) :
    b.column j = .ok x := by
  obtain ⟨work, hwork, rfl, -⟩ := invert_eq_rightHalf hinverse
  obtain ⟨-, -, selected, hselected, rfl, -⟩ := gaussJordan_eq_candidate hx
  have hrows : work.rows = a.rows := (rows_of_reduce hwork).1
  obtain ⟨selected', hselected', hselects⟩ :=
    (selects_besideIdentity hj).reduceFrom (Nat.zero_add a.rows).le (Nat.zero_add a.rows).le hwork
  cases hselected.symm.trans hselected'
  have hcols : selected.cols = a.rows + 1 := (rows_of_reduce hselected).2
  have hheight : selected.rows = a.rows := (rows_of_reduce hselected).1
  rw [column, if_pos (show j < (work.rightHalf a.rows).cols from hj), rhsPart, hheight]
  refine congrArg Except.ok (List.map_congr_left fun i hrange => ?_)
  have hi : i < a.rows := List.mem_range.mp hrange
  rw [entry_rightHalf work hi hj, hselects.entry_eq i (hrows ▸ hi) a.rows (by omega),
    if_neg (lt_irrefl _)]

/-- An elimination stops where the inversion of the coefficients does, whatever the right-hand
side. -/
theorem gaussJordan_of_stuck {rhs : List α} (hsquare : a.isSquare = true)
    (hvalid : (a.withRhs rhs).validate = .ok ()) (hstuck : a.inverse = .error (.zeroPivot k)) :
    (∀ x, (a.withRhs rhs).gaussJordan.outcome ≠ .ok (.candidate x)) ∧
      ((a.withRhs rhs).classification.status = .unique →
        ((a.withRhs rhs).attempt .gaussJordan).outcome = .error (.zeroPivot k)) := by
  have haug := (validate_eq_ok_iff.mp hvalid).1
  have hreduction : ((a.withRhs rhs).reduction .gaussJordan).outcome = .error (.zeroPivot k) := by
    rw [(reduction_forward haug .gaussJordan).2, coefficientPart_withRhs hsquare]
    exact (inverse_eq_error_iff hsquare).mp hstuck
  constructor
  · intro x hx
    obtain ⟨-, -, work, hwork, -⟩ := gaussJordan_eq_candidate hx
    cases hreduction.symm.trans hwork
  · intro hunique
    exact (attempt_eq_zeroPivot_iff hvalid).mpr ⟨⟨hvalid, hunique, nofun⟩, hreduction⟩

end DenseMatrix

open DenseMatrix

/-- Over doubles, take a finite square matrix, and the system with these coefficients and a unit
vector on the right. If the matrix has an inverse and complete elimination solves the system, the
solution is the column of the inverse, bit for bit. If the inversion lacks a pivot, complete
elimination never reports a unique solution, and where the ranks promise one it fails with the
message of the inversion. -/
theorem gaussJordan_of_unitVector (a : DenseMatrix Float) (hsquare : a.isSquare = true)
    (hfinite : a.isFinite = true) {j : ℕ} (hj : j < a.rows) :
    ∃ system, a.augment (unitVector a.rows j) = .ok system ∧
      (∀ b traced, a.inverse = .ok b → (solve system .gaussJordan traced).status = .unique →
        ∃ x, (solve system .gaussJordan traced).solution = some x ∧ b.column j = .ok x) ∧
      ∀ k traced, a.inverse = .error (.zeroPivot k) →
        (solve system .gaussJordan traced).status ≠ .unique ∧
          ∀ c, classify system = .ok c → c.status = .unique →
            (solve system .gaussJordan traced).status = .error ∧
              (solve system .gaussJordan traced).error = some (Error.zeroPivot k).message := by
  have hvalid := validate_withRhs hsquare (Nat.one_le_of_lt hj) hfinite
    (length_unitVector a.rows j) (isFinite_unitVector a.rows j)
  refine ⟨_, augment_eq hsquare (length_unitVector a.rows j), ?_, ?_⟩
  · intro b traced hinverse hunique
    obtain ⟨x, r, hsolved⟩ := solved_of_status_eq_unique hunique
    refine ⟨x, ?_, column_inverse hj hinverse (attempt_eq_solved hsolved).1⟩
    rw [solve_of_solved traced hsolved]
  · intro k traced hstuck
    obtain ⟨hnone, herror⟩ := gaussJordan_of_stuck hsquare hvalid hstuck
    refine ⟨fun hunique => ?_, fun c hc hcunique => ?_⟩
    · obtain ⟨x, r, hsolved⟩ := solved_of_status_eq_unique hunique
      exact hnone x (attempt_eq_solved hsolved).1
    · rw [classify_of_isAugmented (validate_eq_ok_iff.mp hvalid).1] at hc
      cases hc
      exact solve_of_error traced (herror hcunique)

/-- The second column of an inverse is a solution, and an elimination that lacks its second pivot
says so for the first unit vector although the ranks promise a unique solution. -/
theorem gaussJordan_of_second_and_first_unitVector :
    let a : DenseMatrix Float := ⟨2, 2, #[0, 2, 4, 1], rfl⟩
    let singular : DenseMatrix Float := ⟨2, 2, #[7, 7, 1000000, 1000000], rfl⟩
    (∃ b system x, a.inverse = .ok b ∧ a.augment [0, 1] = .ok system ∧
      (solve system .gaussJordan false).solution = some x ∧ b.column 1 = .ok x) ∧
    ∃ system, singular.augment [1, 0] = .ok system ∧
      singular.inverse = .error (.zeroPivot 1) ∧
      (solve system .gaussJordan false).error = some (Error.zeroPivot 1).message := by
  intro a singular
  constructor
  · obtain ⟨_, haugment, hcolumn, -⟩ := gaussJordan_of_unitVector a (by decide +kernel)
      (by decide +kernel) (show 1 < a.rows by decide)
    cases (augment_eq rfl rfl).symm.trans haugment
    have hok : a.inverse.isOk = true := by decide +kernel
    cases hinverse : a.inverse with
    | error e =>
      rw [hinverse] at hok
      cases hok
    | ok b =>
      obtain ⟨x, hx, hb⟩ := hcolumn b false hinverse (by decide +kernel)
      exact ⟨b, _, x, rfl, haugment, hx, hb⟩
  · obtain ⟨_, haugment, -, hstuck⟩ := gaussJordan_of_unitVector singular (by decide +kernel)
      (by decide +kernel) (show 0 < singular.rows by decide)
    cases (augment_eq rfl rfl).symm.trans haugment
    have hinverse : singular.inverse = .error (.zeroPivot 1) := by decide +kernel
    obtain ⟨-, herror⟩ := hstuck 1 false hinverse
    have hclass : classify (singular.withRhs [1, 0]) = .ok _ := classify_of_isAugmented rfl
    exact ⟨_, haugment, hinverse, (herror _ hclass (by decide +kernel)).2⟩

end DenseSystem
