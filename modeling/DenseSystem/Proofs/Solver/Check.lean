import Mathlib.Tactic
import DenseSystem.Proofs.Solver.Run

/-! # Products and the check of a candidate

When lengths fit, products and residuals have a value in every row. A candidate passes the check
exactly when it is finite and so are the magnitudes of all its residuals.
-/
namespace DenseSystem

variable {α : Type} [Scalar α]

theorem mapM_eq_ok {ε β γ : Type} {f : β → Except ε γ} {g : β → γ} {xs : List β}
    (h : ∀ x ∈ xs, f x = .ok (g x)) : xs.mapM f = .ok (xs.map g) := by
  induction xs with
  | nil => rfl
  | cons x xs ih =>
    rw [List.mapM_cons, h x List.mem_cons_self,
      ih fun y hy => h y (List.mem_cons_of_mem _ hy)]
    rfl

def scalarProduct (x y : List α) : α := sum (List.zipWith (· * ·) x y)

namespace DenseMatrix

theorem multiply_eq {m : DenseMatrix α} {x : List α} (h : x.length = m.cols) :
    m.multiply x = .ok ((List.range m.rows).map fun i =>
      scalarProduct ((List.range m.cols).map (m.entry i)) x) := by
  unfold multiply
  rw [if_pos h.symm]
  apply mapM_eq_ok
  intro i _
  rw [dot, if_pos (by simp [h])]
  rfl

def residualAt (system : DenseMatrix α) (x : List α) (i : ℕ) : α :=
  scalarProduct ((List.range system.rows).map (system.entry i)) x - system.entry i system.rows

theorem residuals_eq {system : DenseMatrix α} {x : List α} (haug : system.isAugmented = true)
    (h : x.length = system.rows) :
    system.residuals x = .ok ((List.range system.rows).map (system.residualAt x)) := by
  unfold residuals
  rw [checkAugmented_of_isAugmented haug]
  change (if x.length = system.rows then _ else _) = _
  rw [if_pos h]
  apply mapM_eq_ok
  intro i _
  rw [dot, if_pos (by simp [h])]
  rfl

/-- The largest of `worst` and the magnitudes of the residuals that are compared with it. -/
def worstResidual (worst : α) (rs : List α) : α :=
  rs.foldl (fun worst r => if Scalar.lt worst (Scalar.abs r) then Scalar.abs r else worst) worst

def residualSteps (system : DenseMatrix α) (row : ℕ) (rs : List α) : List (Step α) :=
  (rs.zipIdx row).map fun (r, i) =>
    .residual i (system.entry i system.rows + r) (system.entry i system.rows) (Scalar.abs r)

theorem checkResiduals_of_isFinite (system : DenseMatrix α) {rs : List α}
    (h : ∀ r ∈ rs, Scalar.isFinite (Scalar.abs r) = true) (row : ℕ) (worst : α) :
    system.checkResiduals row worst rs =
      ⟨system.residualSteps row rs, .ok (worstResidual worst rs)⟩ := by
  induction rs generalizing row worst with
  | nil => rfl
  | cons r rs ih =>
    simp only [checkResiduals]
    rw [if_pos (h r List.mem_cons_self), ih fun s hs => h s (List.mem_cons_of_mem _ hs)]
    rfl

theorem isFinite_of_checkResiduals {system : DenseMatrix α} {rs : List α} {row : ℕ} {worst r : α}
    (h : (system.checkResiduals row worst rs).outcome = .ok r) :
    ∀ s ∈ rs, Scalar.isFinite (Scalar.abs s) = true := by
  induction rs generalizing row worst with
  | nil => simp
  | cons s rs ih =>
    by_cases hs : Scalar.isFinite (Scalar.abs s) = true
    · simp only [checkResiduals, if_pos hs] at h
      exact List.forall_mem_cons.mpr ⟨hs, ih h⟩
    · simp only [checkResiduals, if_neg hs] at h
      cases h

theorem check_of_isFinite {system : DenseMatrix α} {x : List α}
    (haug : system.isAugmented = true) (hlength : x.length = system.rows)
    (hx : x.all Scalar.isFinite = true)
    (hr : ∀ i < system.rows, Scalar.isFinite (Scalar.abs (system.residualAt x i)) = true) :
    system.check x = ⟨.solutionExtracted x ::
        system.residualSteps 0 ((List.range system.rows).map (system.residualAt x)),
      .ok (worstResidual 0 ((List.range system.rows).map (system.residualAt x)))⟩ := by
  have hfinite : ∀ r ∈ (List.range system.rows).map (system.residualAt x),
      Scalar.isFinite (Scalar.abs r) = true := by
    rw [List.forall_mem_map]
    exact fun i hi => hr i (List.mem_range.mp hi)
  unfold check
  rw [if_pos hx, residuals_eq haug hlength, Derivation.ofExcept_bind_of_ok rfl,
    checkResiduals_of_isFinite system hfinite]
  rfl

theorem isFinite_of_check {system : DenseMatrix α} {x : List α} {r : α}
    (haug : system.isAugmented = true) (hlength : x.length = system.rows)
    (h : (system.check x).outcome = .ok r) :
    x.all Scalar.isFinite = true ∧
      ∀ i < system.rows, Scalar.isFinite (Scalar.abs (system.residualAt x i)) = true := by
  unfold check at h
  split_ifs at h with hx
  · refine ⟨hx, fun i hi => ?_⟩
    obtain ⟨u, -, h⟩ := Derivation.outcome_bind_eq_ok_iff.mp h
    rw [residuals_eq haug hlength, Derivation.ofExcept_bind_of_ok rfl] at h
    exact isFinite_of_checkResiduals h _ (List.mem_map_of_mem (List.mem_range.mpr hi))
  · cases h

end DenseMatrix

end DenseSystem
