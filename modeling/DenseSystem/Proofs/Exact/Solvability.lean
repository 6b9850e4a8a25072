import Mathlib
import DenseSystem.Proofs.Exact.Rank
import DenseSystem.Proofs.Exact.Solutions

/-! # Ranks and the number of solutions

A system can be solved exactly when the right-hand side adds nothing to the rank, and then by one
vector only when the rank is the number of unknowns.
-/
namespace DenseSystem.DenseMatrix

open Matrix Module

variable [Tolerance]

omit [Tolerance] in
/-- A column is a combination of others exactly when the rank does not grow by it. -/
theorem exists_mulVec_eq_iff_finrank {n : ℕ} (A : Matrix (Fin n) (Fin n) ℚ) (b : Fin n → ℚ) :
    (∃ v, A *ᵥ v = b) ↔
      finrank ℚ (Submodule.span ℚ (insert b (Set.range A.col))) = A.rank := by
  have hmem : (∃ v, A *ᵥ v = b) ↔ b ∈ Submodule.span ℚ (Set.range A.col) := by
    rw [← range_mulVecLin]
    rfl
  rw [hmem, rank_eq_finrank_span_cols]
  constructor
  · intro hb
    rw [Submodule.span_insert_eq_span hb]
  · intro hrank
    have hle : Submodule.span ℚ (Set.range A.col) ≤
        Submodule.span ℚ (insert b (Set.range A.col)) :=
      Submodule.span_mono (Set.subset_insert _ _)
    rw [Submodule.eq_of_le_of_finrank_eq hle hrank.symm]
    exact Submodule.subset_span (Set.mem_insert _ _)

omit [Tolerance] in
theorem det_ne_zero_iff_rank_eq {n : ℕ} (A : Matrix (Fin n) (Fin n) ℚ) :
    A.det ≠ 0 ↔ A.rank = n := by
  constructor
  · intro hdet
    rw [rank_of_det_ne_zero hdet, Fintype.card_fin]
  · intro hrank
    have htop : LinearMap.range A.mulVecLin = ⊤ :=
      Submodule.eq_top_of_finrank_eq (hrank.trans (finrank_fin_fun ℚ).symm)
    have hsurj : Function.Surjective A.mulVec := LinearMap.range_eq_top.mp htop
    exact ((isUnit_iff_isUnit_det A).mp (mulVec_surjective_iff_isUnit.mp hsurj)).ne_zero

variable (system : DenseMatrix ℚ)

theorem exists_solves_iff_mulVec : (∃ x, system.Solves x) ↔
    ∃ v, system.toMatrix system.rows system.rows *ᵥ v =
      system.columnVector system.rows system.rows := by
  constructor
  · rintro ⟨x, hx⟩
    exact ⟨_, (solves_iff.mp hx).2⟩
  · rintro ⟨v, hv⟩
    refine ⟨List.ofFn v, solves_iff.mpr ⟨List.length_ofFn, ?_⟩⟩
    rwa [vectorOf_ofFn]

theorem exists_solves_iff : (∃ x, system.Solves x) ↔
    (system.toMatrix system.rows system.rows).rank =
      (system.toMatrix system.rows (system.rows + 1)).rank := by
  have hcols : (system.toMatrix system.rows (system.rows + 1)).col =
      Fin.snoc (system.toMatrix system.rows system.rows).col
        (system.columnVector system.rows system.rows) := by
    funext j
    refine Fin.lastCases ?_ (fun j => ?_) j
    · rw [Fin.snoc_last]
      rfl
    · rw [Fin.snoc_castSucc]
      rfl
  rw [exists_solves_iff_mulVec, exists_mulVec_eq_iff_finrank,
    rank_eq_finrank_span_cols (system.toMatrix system.rows (system.rows + 1)), hcols,
    Fin.range_snoc, eq_comm]

/-- Singular coefficients allow a second solution beside any first one. -/
theorem exists_ne_of_det_eq_zero {x : List ℚ}
    (hdet : (system.toMatrix system.rows system.rows).det = 0) (hx : system.Solves x) :
    ∃ y, system.Solves y ∧ y ≠ x := by
  obtain ⟨v, hv, hzero⟩ := exists_mulVec_eq_zero_iff.mpr hdet
  obtain ⟨-, hx⟩ := solves_iff.mp hx
  refine ⟨List.ofFn (vectorOf system.rows x + v),
    solves_iff.mpr ⟨List.length_ofFn, ?_⟩, fun h => ?_⟩
  · rw [vectorOf_ofFn, mulVec_add, hzero, add_zero, hx]
  · have hsame := congrArg (vectorOf system.rows) h
    rw [vectorOf_ofFn, add_eq_left] at hsame
    exact hv hsame

/-- There is exactly one solution when the coefficients are nonsingular. -/
theorem existsUnique_solves_iff_det : (∃! x, system.Solves x) ↔
    (system.toMatrix system.rows system.rows).det ≠ 0 := by
  constructor
  · rintro ⟨x, hx, honly⟩ hdet
    obtain ⟨y, hy, hne⟩ := system.exists_ne_of_det_eq_zero hdet hx
    exact hne (honly y hy)
  · intro hdet
    have hsurj := mulVec_surjective_iff_isUnit.mpr ((isUnit_iff_isUnit_det _).mpr hdet.isUnit)
    obtain ⟨x, hx⟩ := system.exists_solves_iff_mulVec.mpr (hsurj _)
    exact ⟨x, hx, fun y hy => hx.unique hdet hy⟩

/-! ## The classification -/

/-- The status that belongs to the ranks of the coefficients and of the whole system. -/
theorem status_classification {system : DenseMatrix ℚ} (haug : system.isAugmented = true)
    (hcoefficients : ∀ v ∈ system.coefficientPart.rankTests, Exact.Clear v)
    (hsystem : ∀ v ∈ system.rankTests, Exact.Clear v) :
    system.classification.status =
      if (system.toMatrix system.rows system.rows).rank ≠
          (system.toMatrix system.rows (system.rows + 1)).rank then .none
      else if (system.toMatrix system.rows system.rows).rank = system.rows then .unique
      else .infinite := by
  obtain ⟨-, hcols⟩ := isAugmented_iff.mp haug
  have hrank : system.coefficientPart.rank = (system.toMatrix system.rows system.rows).rank := by
    rw [system.coefficientPart.rank_eq hcoefficients]
    exact congrArg Matrix.rank system.toMatrix_coefficientPart
  have hrank' := system.rank_eq hsystem
  rw [hcols] at hrank'
  rw [classification, hrank, hrank']
  rfl

/-- The classification counts the solutions: none, one, or several. -/
theorem status_classification_iff {system : DenseMatrix ℚ} (haug : system.isAugmented = true)
    (hcoefficients : ∀ v ∈ system.coefficientPart.rankTests, Exact.Clear v)
    (hsystem : ∀ v ∈ system.rankTests, Exact.Clear v) :
    (system.classification.status = .unique ↔ ∃! x, system.Solves x) ∧
      (system.classification.status = .infinite ↔
        ∃ x y, system.Solves x ∧ system.Solves y ∧ y ≠ x) ∧
      (system.classification.status = .none ↔ ¬ ∃ x, system.Solves x) := by
  rw [status_classification haug hcoefficients hsystem]
  by_cases hsolvable : ∃ x, system.Solves x
  · rw [if_neg (not_not.mpr (system.exists_solves_iff.mp hsolvable))]
    obtain ⟨x, hx⟩ := hsolvable
    by_cases hdet : (system.toMatrix system.rows system.rows).det = 0
    · obtain ⟨y, hy, hne⟩ := system.exists_ne_of_det_eq_zero hdet hx
      rw [if_neg (mt (det_ne_zero_iff_rank_eq _).mpr (not_not.mpr hdet))]
      refine ⟨⟨nofun, fun h => absurd (h.unique hy hx) hne⟩, ⟨fun _ => ⟨x, y, hx, hy, hne⟩,
        fun _ => rfl⟩, ⟨nofun, fun h => absurd ⟨x, hx⟩ h⟩⟩
    · rw [if_pos ((det_ne_zero_iff_rank_eq _).mp hdet)]
      refine ⟨⟨fun _ => ⟨x, hx, fun y hy => hx.unique hdet hy⟩, fun _ => rfl⟩, ⟨nofun, ?_⟩,
        ⟨nofun, fun h => absurd ⟨x, hx⟩ h⟩⟩
      rintro ⟨y, z, hy, hz, hne⟩
      exact absurd (hy.unique hdet hz) hne
  · rw [if_pos (mt system.exists_solves_iff.mpr hsolvable)]
    refine ⟨⟨nofun, fun h => absurd h.exists hsolvable⟩, ⟨nofun, ?_⟩,
      ⟨fun _ => hsolvable, fun _ => rfl⟩⟩
    rintro ⟨y, -, hy, -⟩
    exact absurd ⟨y, hy⟩ hsolvable

end DenseSystem.DenseMatrix
