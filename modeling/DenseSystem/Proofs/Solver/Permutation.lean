import Mathlib
import DenseSystem.Proofs.Elimination.Permutation
import DenseSystem.Proofs.Solver.Forward
import DenseSystem.Proofs.Solver.Rearranged
import DenseSystem.Proofs.Solver.WellFormed

/-! # Systems that only rename the unknowns

If the coefficients are a permutation of the rows of an identity, each equation gives one unknown its
value. All methods find these values exactly: an elimination brings the rows into order, and the
zeros that are multiplied and added on the way can only change the sign of a zero.
-/
namespace DenseSystem

section Sums

variable {α : Type} [Scalar α] [SignlessZeros α]

theorem SameValue.isFinite_eq {x y : α} (h : SameValue x y) :
    Scalar.isFinite x = Scalar.isFinite y := by
  rcases h with rfl | ⟨hx, hy⟩
  · rfl
  · rw [Spoiling.of_isZero hx, Spoiling.of_isZero hy]

theorem sameValue_foldl_add {xs : List α} (h : ∀ x ∈ xs, Scalar.isZero x = true) (start : α) :
    SameValue (xs.foldl (· + ·) start) start := by
  induction xs generalizing start with
  | nil => exact .refl start
  | cons x xs ih =>
    rw [List.forall_mem_cons] at h
    exact (ih h.2 _).trans (SignlessZeros.add_of_isZero start h.1)

theorem isZero_sum {xs : List α} (h : ∀ x ∈ xs, Scalar.isZero x = true) :
    Scalar.isZero (sum xs) = true := by
  rw [sum, (sameValue_foldl_add h _).isZero_eq]
  exact SignlessZeros.isZero_emptySum

theorem sameValue_sum {xs : List α} {j : ℕ} (hj : j < xs.length)
    (h : ∀ (k : ℕ) (hk : k < xs.length), k ≠ j → Scalar.isZero xs[k] = true) :
    SameValue (sum xs) xs[j] := by
  have hbefore : ∀ x ∈ xs.take j, Scalar.isZero x = true := by
    intro x hx
    obtain ⟨k, hk, rfl⟩ := List.mem_iff_getElem.mp hx
    rw [List.length_take] at hk
    rw [List.getElem_take]
    exact h k (by omega) (by omega)
  have hafter : ∀ x ∈ xs.drop (j + 1), Scalar.isZero x = true := by
    intro x hx
    obtain ⟨k, hk, rfl⟩ := List.mem_iff_getElem.mp hx
    rw [List.length_drop] at hk
    rw [List.getElem_drop]
    exact h _ (by omega) (by omega)
  have hsplit : xs = xs.take j ++ xs[j] :: xs.drop (j + 1) := by
    rw [List.getElem_cons_drop, List.take_append_drop]
  have hsum : sum xs = (xs.drop (j + 1)).foldl (· + ·) (sum (xs.take j) + xs[j]) := by
    conv_lhs => rw [hsplit, sum, List.foldl_append, List.foldl_cons]
    rfl
  rw [hsum]
  exact (sameValue_foldl_add hafter _).trans
    (SignlessZeros.of_isZero_add (isZero_sum hbefore) xs[j])

theorem isZero_scalarProduct {as xs : List α} (has : ∀ a ∈ as, Scalar.isZero a = true)
    (hxs : ∀ x ∈ xs, Scalar.isFinite x = true) : Scalar.isZero (scalarProduct as xs) = true := by
  refine isZero_sum fun t ht => ?_
  obtain ⟨k, hk, rfl⟩ := List.mem_iff_getElem.mp ht
  rw [List.getElem_zipWith]
  exact SignlessZeros.isZero_of_isZero_mul (has _ (List.getElem_mem _)) (hxs _ (List.getElem_mem _))

theorem sameValue_scalarProduct {f : ℕ → α} {xs : List α} {n j : ℕ} (hlength : xs.length = n)
    (hj : j < n) (hone : f j = 1) (hzero : ∀ k < n, k ≠ j → f k = 0)
    (hxs : ∀ x ∈ xs, Scalar.isFinite x = true) :
    SameValue (scalarProduct ((List.range n).map f) xs) (xs.getD j 0) := by
  subst hlength
  have hlt : j < (List.zipWith (· * ·) ((List.range xs.length).map f) xs).length := by
    simpa using hj
  have h := sameValue_sum hlt fun k hk hne => by
    rw [List.length_zipWith, List.length_map, List.length_range, Nat.min_self] at hk
    rw [List.getElem_zipWith, List.getElem_map, List.getElem_range, hzero k hk hne]
    exact SignlessZeros.isZero_of_isZero_mul Spoiling.isZero_zero (hxs _ (List.getElem_mem _))
  rw [List.getElem_zipWith, List.getElem_map, List.getElem_range, hone, SignlessZeros.one_mul] at h
  rw [List.getD_eq_getElem _ _ hj]
  exact h

end Sums

namespace DenseMatrix

variable {α : Type} [Scalar α]

def transpose (m : DenseMatrix α) : DenseMatrix α := ofFn m.cols m.rows fun i j => m.entry j i

/-- The matrix whose row `i` holds a one in column `σ i` and zeros elsewhere. -/
def permutation {n : ℕ} (σ : Equiv.Perm (Fin n)) : DenseMatrix α :=
  ofFn n n fun i j => if ∃ h : i < n, (σ ⟨i, h⟩ : ℕ) = j then 1 else 0

section Shapes

variable {a system : DenseMatrix α}

theorem leftPermutation_permutation {n : ℕ} (σ : Equiv.Perm (Fin n)) :
    (permutation σ : DenseMatrix α).LeftPermutation σ where
  rows_le_cols := le_rfl
  entry_eq i _ hj := (entry_ofFn _ i.isLt hj).trans (if_congr (exists_prop_of_true i.isLt) rfl rfl)

theorem LeftPermutation.isFinite [Spoiling α] {σ : Equiv.Perm (Fin a.rows)}
    (h : a.LeftPermutation σ) (hsquare : a.isSquare = true) : a.isFinite = true := by
  refine isFinite_iff.mpr fun i hi j hj => ?_
  rw [h.entry_eq ⟨i, hi⟩ j ((rows_eq_cols_of_isSquare hsquare).symm ▸ hj)]
  split_ifs
  · exact Spoiling.isFinite_one
  · exact Spoiling.isFinite_zero

theorem LeftPermutation.withRhs {σ : Equiv.Perm (Fin a.rows)} (h : a.LeftPermutation σ)
    (b : List α) : (a.withRhs b).LeftPermutation σ where
  rows_le_cols := Nat.le_succ a.rows
  entry_eq i j (hj : j < a.rows) :=
    (entry_ofFn _ i.isLt (by omega)).trans ((if_pos hj).trans (h.entry_eq i j hj))

theorem LeftPermutation.coefficientPart {σ : Equiv.Perm (Fin system.rows)}
    (h : system.LeftPermutation σ) : system.coefficientPart.LeftPermutation σ where
  rows_le_cols := le_rfl
  entry_eq i j hj := (system.entry_coefficientPart i.isLt hj).trans (h.entry_eq i j hj)

theorem LeftPermutation.besideIdentity {σ : Equiv.Perm (Fin a.rows)} (h : a.LeftPermutation σ) :
    a.besideIdentity.LeftPermutation σ where
  rows_le_cols := Nat.le_mul_of_pos_left _ (Nat.succ_pos 1)
  entry_eq i j (hj : j < a.rows) :=
    (entry_ofFn _ i.isLt (by omega)).trans ((if_pos hj).trans (h.entry_eq i j hj))

theorem entry_rightHalf_permuteRows (σ : Equiv.Perm (Fin a.rows)) (i : Fin a.rows) {j : ℕ}
    (hj : j < a.rows) :
    ((a.besideIdentity.permuteRows σ.symm).rightHalf a.rows).entry (σ i) j =
      if j = i then 1 else 0 := by
  have hcol : a.rows + j < 2 * a.rows := by omega
  rw [entry_rightHalf _ (σ i).isLt hj]
  refine (entry_permuteRows_symm (m := a.besideIdentity) σ i hcol).trans ?_
  refine (entry_ofFn _ i.isLt hcol).trans ((if_neg (by omega)).trans ?_)
  exact if_congr Nat.add_left_cancel_iff rfl rfl

end Shapes

/-! ## What is read off -/

section Reading

variable [UnitPivots α] {system work : DenseMatrix α}

/-- Later unknowns do not count in a back substitution. -/
theorem LeftIdentity.sameValue_backSubstitute (h : work.LeftIdentity)
    (hrhs : ∀ i < work.rows, Scalar.isFinite (work.entry i work.rows) = true) {i left : ℕ}
    (hi : i + left = work.rows) :
    ∀ d < left, SameValue ((work.backSubstitute i left).getD d 0)
      (work.entry (i + d) work.rows) := by
  induction left generalizing i with
  | zero => exact fun d hd => absurd hd d.not_lt_zero
  | succ left ih =>
    have hlater := ih (i := i + 1) (by omega)
    have hrow : ∀ a ∈ (List.range' (i + 1) left).map (work.entry i), Scalar.isZero a = true := by
      rw [List.forall_mem_map]
      intro j hj
      rw [List.mem_range'_1] at hj
      rw [h.entry_of_ne (by omega) (by omega) (by omega)]
      exact Spoiling.isZero_zero
    have hfinite : ∀ x ∈ work.backSubstitute (i + 1) left, Scalar.isFinite x = true := by
      intro x hx
      obtain ⟨d, hd, rfl⟩ := List.mem_iff_getElem.mp hx
      have hsame := hlater d (by simpa using hd)
      rw [List.getD_eq_getElem _ _ hd] at hsame
      rw [hsame.isFinite_eq]
      rw [length_backSubstitute] at hd
      exact hrhs _ (by omega)
    intro d hd
    cases d with
    | zero => exact SignlessZeros.sub_of_isZero _ (isZero_scalarProduct hrow hfinite)
    | succ d =>
      rw [backSubstitute, List.getD_cons_succ, show i + (d + 1) = i + 1 + d by omega]
      exact hlater d (by omega)

/-- A unit vector in the inverse picks a right-hand side. -/
theorem sameValue_inverseProduct {i k : ℕ} (hk : k < system.rows) (hi : i < system.rows)
    (hrow : ∀ j < system.rows,
      (work.rightHalf system.rows).entry k j = if j = i then 1 else 0)
    (hrhs : ∀ j < system.rows, Scalar.isFinite (system.entry j system.rows) = true) :
    SameValue ((system.inverseProduct work).getD k 0) (system.entry i system.rows) := by
  have hget : (system.inverseProduct work).getD k 0 = scalarProduct
      ((List.range system.rows).map ((work.rightHalf system.rows).entry k)) system.rhsPart := by
    simp [inverseProduct, hk]
  rw [hget, ← system.getD_rhsPart hi]
  refine sameValue_scalarProduct system.length_rhsPart hi ?_ (fun j hj hne => ?_) ?_
  · rw [hrow i hi, if_pos rfl]
  · rw [hrow j hj, if_neg hne]
  · rw [rhsPart, List.forall_mem_map]
    exact fun j hj => hrhs j (List.mem_range.mp hj)

variable {σ : Equiv.Perm (Fin system.rows)}

/-- All methods read off the right-hand sides. -/
theorem LeftPermutation.sameValue_readOff (h : system.LeftPermutation σ)
    (haug : system.isAugmented = true) (hfinite : system.isFinite = true) {method : Method}
    (hwork : (system.reduction method).outcome = .ok work) (i : Fin system.rows) :
    SameValue ((system.readOff work method).getD (σ i) 0) (system.entry i system.rows) := by
  obtain ⟨-, hcols⟩ := isAugmented_iff.mp haug
  have hlast : system.rows < system.cols := by omega
  have hrhs : ∀ i < system.rows, Scalar.isFinite (system.entry i system.rows) = true :=
    fun i hi => isFinite_iff.mp hfinite i hi system.rows hlast
  cases method with
  | gauss =>
    cases (h.outcome_reduce .below).symm.trans hwork
    have hsame := h.leftIdentity.sameValue_backSubstitute (fun i hi => ?_)
      (Nat.zero_add _) (σ i) (σ i).isLt
    · rw [Nat.zero_add] at hsame
      exact hsame.trans (.inl (entry_permuteRows_symm σ i hlast))
    · exact isFinite_iff.mp (isFinite_permuteRows σ.symm hfinite) i hi _ hlast
  | gaussJordan =>
    cases (h.outcome_reduce .all).symm.trans hwork
    have hentry := (system.permuteRows σ.symm).getD_rhsPart (σ i).isLt
    exact .inl (hentry.trans (entry_permuteRows_symm σ i hlast))
  | inverseMatrix =>
    cases (h.coefficientPart.besideIdentity.outcome_reduce .all).symm.trans hwork
    exact sameValue_inverseProduct (σ i).isLt i.isLt
      (fun j hj => system.coefficientPart.entry_rightHalf_permuteRows σ i hj) hrhs

/-- With these values every equation holds exactly. -/
theorem LeftPermutation.isZero_residualAt (h : system.LeftPermutation σ) {x : List α}
    (hlength : x.length = system.rows) (hx : ∀ v ∈ x, Scalar.isFinite v = true)
    (hsame : ∀ i : Fin system.rows,
      SameValue (x.getD (σ i) 0) (system.entry i system.rows)) (i : Fin system.rows) :
    Scalar.isZero (system.residualAt x i) = true := by
  have hproduct : SameValue (scalarProduct ((List.range system.rows).map (system.entry i)) x)
      (x.getD (σ i) 0) :=
    sameValue_scalarProduct hlength (σ i).isLt
      ((h.entry_eq i _ (σ i).isLt).trans (if_pos rfl))
      (fun j hj hne => (h.entry_eq i j hj).trans (if_neg (Ne.symm hne))) hx
  have hfinite : Scalar.isFinite (x.getD (σ i) 0) = true := by
    have hlt : (σ i : ℕ) < x.length := hlength.symm ▸ (σ i).isLt
    rw [List.getD_eq_getElem _ _ hlt]
    exact hx _ (List.getElem_mem _)
  exact (hproduct.trans (hsame i)).isZero_sub (hproduct.isFinite_eq.trans hfinite)

theorem worstResidual_of_isZero {rs : List α} (h : ∀ r ∈ rs, Scalar.isZero r = true) :
    worstResidual 0 rs = 0 := by
  induction rs with
  | nil => rfl
  | cons r rs ih =>
    rw [List.forall_mem_cons] at h
    rw [worstResidual, List.foldl_cons, SignlessZeros.abs_of_isZero h.1, ite_self]
    exact ih h.2

theorem LeftPermutation.outcome_check (h : system.LeftPermutation σ)
    (haug : system.isAugmented = true) {x : List α} (hlength : x.length = system.rows)
    (hx : ∀ v ∈ x, Scalar.isFinite v = true)
    (hsame : ∀ i : Fin system.rows, SameValue (x.getD (σ i) 0) (system.entry i system.rows)) :
    (system.check x).outcome = .ok 0 := by
  have hzero (i : ℕ) (hi : i < system.rows) : Scalar.isZero (system.residualAt x i) = true :=
    h.isZero_residualAt hlength hx hsame ⟨i, hi⟩
  rw [check_of_isFinite haug hlength (List.all_eq_true.mpr hx) fun i hi => by
    rw [SignlessZeros.abs_of_isZero (hzero i hi)]
    exact Spoiling.isFinite_zero]
  refine congrArg Except.ok (worstResidual_of_isZero ?_)
  rw [List.forall_mem_map]
  exact fun i hi => hzero i (List.mem_range.mp hi)

/-! ## The methods -/

theorem LeftPermutation.status_classification (h : system.LeftPermutation σ)
    (haug : system.isAugmented = true) : system.classification.status = .unique :=
  (status_classification_eq_unique_iff haug).mpr
    (h.coefficientPart.rank_eq system.isSquare_coefficientPart)

theorem LeftPermutation.coefficientDeterminant_eq (h : system.LeftPermutation σ) :
    system.coefficientDeterminant = signed (Equiv.Perm.sign σ) 1 :=
  Except.ok.inj (system.determinant_coefficientPart.symm.trans
    (h.coefficientPart.determinant_eq system.isSquare_coefficientPart))

theorem LeftPermutation.starts (h : system.LeftPermutation σ) (hvalid : system.validate = .ok ())
    (method : Method) : Starts system method where
  valid := hvalid
  unique := h.status_classification (validate_eq_ok_iff.mp hvalid).1
  determinant _ := by
    rw [h.coefficientDeterminant_eq]
    rcases Int.units_eq_one_or (Equiv.Perm.sign σ) with hsign | hsign
    · rw [hsign, signed_one]
      exact UnitPivots.isNearZero_one
    · rw [hsign, signed_neg_one]
      exact UnitPivots.isNearZero_neg_one

theorem LeftPermutation.exists_reduction (h : system.LeftPermutation σ) (method : Method) :
    ∃ work, (system.reduction method).outcome = .ok work := by
  cases method with
  | gauss => exact ⟨_, h.outcome_reduce .below⟩
  | gaussJordan => exact ⟨_, h.outcome_reduce .all⟩
  | inverseMatrix => exact ⟨_, h.coefficientPart.besideIdentity.outcome_reduce .all⟩

/-- Every attempt finds the values without a residual. -/
theorem LeftPermutation.attempt_solved (h : system.LeftPermutation σ)
    (hvalid : system.validate = .ok ()) (method : Method) :
    ∃ x, (system.attempt method).outcome = .ok (.solved x 0) ∧ x.length = system.rows ∧
      ∀ i : Fin system.rows, SameValue (x.getD (σ i) 0) (system.entry i system.rows) := by
  obtain ⟨haug, hfinite⟩ := validate_eq_ok_iff.mp hvalid
  obtain ⟨-, hcols⟩ := isAugmented_iff.mp haug
  obtain ⟨work, hwork⟩ := h.exists_reduction method
  have hcandidate : (system.strategy method).outcome =
      .ok (.candidate (system.readOff work method)) := by
    rw [strategy_of_reduced (h.starts hvalid method) hwork]
  have hlength := length_of_candidate hcandidate
  have hsame := h.sameValue_readOff haug hfinite hwork
  refine ⟨_, attempt_of_candidate hcandidate (h.outcome_check haug hlength ?_ hsame), hlength,
    hsame⟩
  intro v hv
  obtain ⟨j, hj, rfl⟩ := List.mem_iff_getElem.mp hv
  have hj' : j < system.rows := hlength ▸ hj
  have hvalue := hsame (σ.symm ⟨j, hj'⟩)
  rw [Equiv.apply_symm_apply, List.getD_eq_getElem _ _ hj] at hvalue
  rw [hvalue.isFinite_eq]
  exact isFinite_iff.mp hfinite _ (σ.symm ⟨j, hj'⟩).isLt _ (by omega)

theorem LeftPermutation.inverse_eq {a : DenseMatrix α} {σ : Equiv.Perm (Fin a.rows)}
    (h : a.LeftPermutation σ) (hsquare : a.isSquare = true) : a.inverse = .ok a.transpose := by
  have hcols := rows_eq_cols_of_isSquare hsquare
  rw [inverse, invert_of_reduce hsquare (h.besideIdentity.outcome_reduce .all)]
  refine congrArg Except.ok (ext_entry hcols rfl fun i (hi : i < a.rows) j (hj : j < a.rows) => ?_)
  have hleft := a.entry_rightHalf_permuteRows σ (σ.symm ⟨i, hi⟩) hj
  rw [Equiv.apply_symm_apply] at hleft
  rw [transpose, entry_ofFn _ (hcols ▸ hi) hj, h.entry_eq ⟨j, hj⟩ i hi]
  have hmoved : (⟨j, hj⟩ : Fin a.rows) = σ.symm ⟨i, hi⟩ ↔ σ ⟨j, hj⟩ = ⟨i, hi⟩ :=
    Equiv.eq_symm_apply σ
  exact hleft.trans (if_congr (Fin.ext_iff.symm.trans (hmoved.trans Fin.ext_iff)) rfl rfl)

end Reading

end DenseMatrix

open DenseMatrix

/-- Over doubles, every system that only renames the unknowns is solved exactly by all methods. It is
classified as uniquely solvable, each unknown is the right-hand side of the equation that names it,
no equation has a residual, the determinant is the sign of the permutation, and the inverse of the
coefficients is their transpose. -/
theorem solve_permutation {n : ℕ} (hpos : 1 ≤ n) (σ : Equiv.Perm (Fin n)) (b : List Float)
    (hlength : b.length = n) (hfinite : b.all Scalar.isFinite = true) :
    let a : DenseMatrix Float := permutation σ
    ∃ system c, a.augment b = .ok system ∧ classify system = .ok c ∧ c.status = .unique ∧
      (∀ method traced, (solve system method traced).status = .unique ∧
        (solve system method traced).maxResidual = some 0.0 ∧
        ∃ x, (solve system method traced).solution = some x ∧ x.length = n ∧
          ∀ i : Fin n, (x.getD (σ i) 0 == b.getD i 0) = true) ∧
      (∀ traced, (solve system .inverseMatrix traced).determinant =
        some (if Equiv.Perm.sign σ = 1 then 1.0 else -1.0)) ∧
      a.inverse = .ok a.transpose := by
  intro a
  have hpermutation : a.LeftPermutation σ := leftPermutation_permutation σ
  have hsquare : a.isSquare = true := beq_self_eq_true n
  have hentries : a.isFinite = true := hpermutation.isFinite hsquare
  have hvalid := validate_withRhs hsquare hpos hentries hlength hfinite
  have haug := (validate_eq_ok_iff.mp hvalid).1
  have hsystem : (a.withRhs b).LeftPermutation σ := hpermutation.withRhs b
  refine ⟨a.withRhs b, _, augment_eq hsquare hlength, classify_of_isAugmented haug,
    hsystem.status_classification haug, fun method traced => ?_, fun traced => ?_,
    hpermutation.inverse_eq hsquare⟩
  · obtain ⟨x, hsolved, hlength', hsame⟩ := hsystem.attempt_solved hvalid method
    rw [solve_of_solved traced hsolved]
    refine ⟨rfl, rfl, x, rfl, hlength', fun i => ?_⟩
    have hvalue : (a.withRhs b).entry i n = b.getD i 0 :=
      (entry_ofFn _ i.isLt n.lt_succ_self).trans (if_neg (lt_irrefl n))
    have hrhs := isFinite_iff.mp (validate_eq_ok_iff.mp hvalid).2 i i.isLt n n.lt_succ_self
    rw [← hvalue]
    exact Double.beq_of_sameValue (hsame i) ((hsame i).isFinite_eq.trans hrhs)
  · obtain ⟨x, hsolved, -, -⟩ := hsystem.attempt_solved hvalid .inverseMatrix
    rw [solve_of_solved traced hsolved, determinant_attempt, if_pos ⟨rfl, hvalid⟩,
      hsystem.coefficientDeterminant_eq]
    rfl

/-- Three equations that name the last unknown, the first and the second, the last of them with a
negative zero. -/
theorem solve_rotation :
    1 ≤ 3 ∧ ∃ system, (permutation (finRotate 3) : DenseMatrix Float).augment [0.1, 7, -0.0] =
        .ok system ∧ (solve system .gauss true).status = .unique ∧
      (solve system .inverseMatrix false).maxResidual = some 0.0 ∧
      (permutation (finRotate 3) : DenseMatrix Float).inverse =
        .ok (permutation (finRotate 3)).transpose := by
  obtain ⟨system, c, hsystem, -, -, hsolved, -, hinverse⟩ :=
    solve_permutation (by decide) (finRotate 3) [0.1, 7, -0.0] rfl (by decide +kernel)
  exact ⟨by decide, system, hsystem, (hsolved .gauss true).1, (hsolved .inverseMatrix false).2.1,
    hinverse⟩

end DenseSystem
