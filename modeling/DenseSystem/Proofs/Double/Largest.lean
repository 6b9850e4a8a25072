import Mathlib
import DenseSystem.Residual
import DenseSystem.Proofs.Double.Order
import DenseSystem.Proofs.Double.SignedZeros

/-! # The largest magnitude

The largest of some magnitudes is found by one comparison with each. A NaN takes the place of any
value and gives way to nothing but a NaN, so it is found if there is one. Otherwise none of the
magnitudes exceeds what is found, which is one of them. As no two values are like that, the order of
the comparisons does not matter.
-/
namespace DenseSystem

namespace Double

open Float.Model Float.Model.UnpackedFloat

/-! ## Comparisons -/

theorem compare_eq_eq_iff_rank (u v : UnpackedFloat) :
    u.compare v = some .eq ↔ u.isNaN = false ∧ v.isNaN = false ∧ rank u = rank v := by
  have hpositive : compare Sign.positive Sign.positive = .eq := rfl
  have hnegative : compare Sign.negative Sign.negative = .eq := rfl
  have hless : compare Sign.negative Sign.positive = .lt := rfl
  have hgreater : compare Sign.positive Sign.negative = .gt := rfl
  rcases u with s | _ | s | ⟨s, m, e, hm⟩ <;> rcases v with t | _ | t | ⟨t, n, f, hn⟩ <;>
    (try cases s) <;> (try cases t) <;>
    simp [UnpackedFloat.compare, rank, UnpackedFloat.isNaN, Ordering.then_eq_eq, Sign.apply,
      hpositive, hnegative, hless, hgreater]

theorem le_iff {x y : Float} : x ≤ y ↔ Scalar.isNaN x = false ∧ Scalar.isNaN y = false ∧
    rank x.toModel.unpack ≤ rank y.toModel.unpack := by
  have hcompare : x ≤ y ↔ x.toModel.unpack.compare y.toModel.unpack = some .lt ∨
      x.toModel.unpack.compare y.toModel.unpack = some .eq := by
    change decide ((x.toModel.unpack.compare y.toModel.unpack).any (·.isLE) = true) = true ↔ _
    rw [decide_eq_true_iff]
    cases x.toModel.unpack.compare y.toModel.unpack with
    | none => simp
    | some c => cases c <;> simp
  rw [hcompare, compare_eq_lt_iff, compare_eq_eq_iff_rank, le_iff_lt_or_eq, ← and_or_left,
    ← and_or_left]
  rfl

variable {x y z : Float}

protected theorem le_refl (hx : Scalar.isNaN x = false) : x ≤ x := le_iff.mpr ⟨hx, hx, le_rfl⟩

protected theorem le_trans (hxy : x ≤ y) (hyz : y ≤ z) : x ≤ z := by
  obtain ⟨hx, -, hle⟩ := le_iff.mp hxy
  obtain ⟨-, hz, hle'⟩ := le_iff.mp hyz
  exact le_iff.mpr ⟨hx, hz, hle.trans hle'⟩

protected theorem le_of_lt (h : Scalar.lt x y = true) : x ≤ y := by
  obtain ⟨hx, hy, hlt⟩ := lt_iff.mp h
  exact le_iff.mpr ⟨hx, hy, hlt.le⟩

protected theorem le_of_not_lt (hx : Scalar.isNaN x = false) (hy : Scalar.isNaN y = false)
    (h : Scalar.lt x y = false) : y ≤ x := by
  rw [← Bool.not_eq_true, lt_iff] at h
  exact le_iff.mpr ⟨hy, hx, not_lt.mp fun hlt => h ⟨hx, hy, hlt⟩⟩

theorem isNaN_scalarAbs (x : Float) : Scalar.isNaN (Scalar.abs x) = Scalar.isNaN x := by
  change x.abs.toModel.unpack.isNaN = _
  rw [unpack_abs, isNaN_abs]
  rfl

theorem isFinite_scalarAbs (x : Float) : Scalar.isFinite (Scalar.abs x) = Scalar.isFinite x := by
  change x.abs.toModel.unpack.isFinite = x.toModel.unpack.isFinite
  rw [unpack_abs]
  cases x.toModel.unpack <;> rfl

theorem unpack_of_isNaN (h : Scalar.isNaN x = true) : x.toModel.unpack = .notANumber := by
  change x.toModel.unpack.isNaN = true at h
  cases hu : x.toModel.unpack with
  | notANumber => rfl
  | _ =>
    rw [hu] at h
    cases h

/-- There is only one NaN. -/
theorem eq_of_isNaN (hx : Scalar.isNaN x = true) (hy : Scalar.isNaN y = true) : x = y :=
  eq_of_unpack ((unpack_of_isNaN hx).trans (unpack_of_isNaN hy).symm)

theorem isNaN_of_isFinite (h : Scalar.isFinite x = true) : Scalar.isNaN x = false := by
  by_contra hnan
  change x.toModel.unpack.isFinite = true at h
  rw [unpack_of_isNaN (by simpa using hnan)] at h
  cases h

theorem abs_eq_of_le (hxy : Scalar.abs x ≤ Scalar.abs y) (hyx : Scalar.abs y ≤ Scalar.abs x) :
    Scalar.abs x = Scalar.abs y := by
  obtain ⟨hx, hy, hle⟩ := le_iff.mp hxy
  obtain ⟨-, -, hge⟩ := le_iff.mp hyx
  have hrank := le_antisymm hle hge
  rw [isNaN_scalarAbs] at hx hy
  change rank x.abs.toModel.unpack = rank y.abs.toModel.unpack at hrank
  rw [unpack_abs, unpack_abs] at hrank
  apply eq_of_unpack
  change x.abs.toModel.unpack = y.abs.toModel.unpack
  rw [unpack_abs, unpack_abs]
  exact abs_eq_of_rank_eq hx hy hrank

theorem abs_zero : Scalar.abs (0 : Float) = 0 := rfl

theorem zero_le_magnitude (hx : Scalar.isNaN x = false) : (0 : Float) ≤ Scalar.abs x := by
  refine le_iff.mpr ⟨rfl, by rwa [isNaN_scalarAbs], ?_⟩
  change rank (.zero .positive) ≤ rank x.abs.toModel.unpack
  rw [unpack_abs]
  cases x.toModel.unpack with
  | notANumber => exact le_rfl
  | infinity s => simp [rank, UnpackedFloat.abs, Sign.apply, Prod.Lex.toLex_le_toLex]
  | zero s => exact le_rfl
  | finite s m e hm => simp [rank, UnpackedFloat.abs, Sign.apply, Prod.Lex.toLex_le_toLex]

/-- What has a magnitude that does not exceed a finite value is finite. -/
theorem isFinite_of_abs_le (hy : Scalar.isFinite y = true) (h : Scalar.abs x ≤ y) :
    Scalar.isFinite x = true := by
  obtain ⟨hx, -, hle⟩ := le_iff.mp h
  rw [isNaN_scalarAbs] at hx
  change x.toModel.unpack.isNaN = false at hx
  change rank x.abs.toModel.unpack ≤ _ at hle
  change x.toModel.unpack.isFinite = true
  change y.toModel.unpack.isFinite = true at hy
  rw [unpack_abs] at hle
  cases hu : x.toModel.unpack with
  | notANumber =>
    rw [hu] at hx
    cases hx
  | infinity s =>
    rw [hu] at hle
    cases hv : y.toModel.unpack with
    | notANumber | infinity =>
      rw [hv] at hy
      cases hy
    | zero t =>
      rw [hv] at hle
      simp [rank, UnpackedFloat.abs, Sign.apply, Prod.Lex.toLex_le_toLex] at hle
    | finite t m e hm =>
      rw [hv] at hle
      cases t <;> simp [rank, UnpackedFloat.abs, Sign.apply, Prod.Lex.toLex_le_toLex] at hle
  | _ => rfl

/-! ## The search -/

/-- The value that is kept of two: the second one if it is NaN or larger. -/
def keep (worst x : Float) : Float := if Scalar.isNaN x || Scalar.lt worst x then x else worst

theorem largest_eq (xs : List Float) : largest xs = xs.foldl keep 0 := rfl

theorem keep_eq (worst x : Float) : keep worst x = worst ∨ keep worst x = x := by
  unfold keep
  split_ifs
  · exact .inr rfl
  · exact .inl rfl

/-- A value that is less than another is not NaN, so NaN is never displaced by a number. -/
theorem isNaN_keep (worst x : Float) :
    Scalar.isNaN (keep worst x) = (Scalar.isNaN worst || Scalar.isNaN x) := by
  unfold keep
  cases hx : Scalar.isNaN x with
  | true => simp [hx]
  | false =>
    cases hlt : Scalar.lt worst x with
    | true =>
      obtain ⟨hworst, -, -⟩ := lt_iff.mp hlt
      have hworst' : Scalar.isNaN worst = false := hworst
      simp [hx, hworst']
    | false => simp

theorem isNaN_foldl_keep (worst : Float) (xs : List Float) :
    Scalar.isNaN (xs.foldl keep worst) = true ↔
      Scalar.isNaN worst = true ∨ ∃ x ∈ xs, Scalar.isNaN x = true := by
  induction xs generalizing worst with
  | nil => simp
  | cons x xs ih =>
    rw [List.foldl_cons, ih, isNaN_keep, Bool.or_eq_true, List.exists_mem_cons_iff, or_assoc]

theorem le_keep {worst : Float} (hworst : Scalar.isNaN worst = false)
    (hx : Scalar.isNaN x = false) : worst ≤ keep worst x ∧ x ≤ keep worst x := by
  unfold keep
  rw [hx, Bool.false_or]
  cases hlt : Scalar.lt worst x with
  | true => exact ⟨Double.le_of_lt hlt, Double.le_refl hx⟩
  | false => exact ⟨Double.le_refl hworst, Double.le_of_not_lt hworst hx hlt⟩

/-- Among numbers the search ends with the greatest. -/
theorem isGreatest_foldl_keep {worst : Float} {xs : List Float}
    (h : ∀ x ∈ worst :: xs, Scalar.isNaN x = false) :
    IsGreatest {x | x ∈ worst :: xs} (xs.foldl keep worst) := by
  induction xs generalizing worst with
  | nil =>
    refine ⟨List.mem_singleton_self worst, fun x hx => ?_⟩
    rw [List.mem_singleton.mp hx]
    exact Double.le_refl (h worst List.mem_cons_self)
  | cons x xs ih =>
    obtain ⟨hworst, hrest⟩ := List.forall_mem_cons.mp h
    obtain ⟨hx, hxs⟩ := List.forall_mem_cons.mp hrest
    have hkeep : Scalar.isNaN (keep worst x) = false := by rw [isNaN_keep, hworst, hx]; rfl
    obtain ⟨hmem, hupper⟩ := ih (List.forall_mem_cons.mpr ⟨hkeep, hxs⟩)
    obtain ⟨hle, hle'⟩ := le_keep hworst hx
    have hlast : keep worst x ≤ xs.foldl keep (keep worst x) := hupper List.mem_cons_self
    rw [List.foldl_cons]
    constructor
    · have hkept : keep worst x ∈ worst :: x :: xs := by
        rcases keep_eq worst x with hk | hk <;> simp [hk]
      rcases List.mem_cons.mp hmem with heq | hmem
      · rwa [← heq] at hkept
      · exact List.mem_cons_of_mem _ (List.mem_cons_of_mem _ hmem)
    · intro y hy
      rcases List.mem_cons.mp hy with rfl | hy
      · exact Double.le_trans hle hlast
      · rcases List.mem_cons.mp hy with rfl | hy
        · exact Double.le_trans hle' hlast
        · exact hupper (List.mem_cons_of_mem _ hy)

/-! ## Magnitudes -/

variable {rs ss : List Float}

theorem isNaN_largest_abs_iff (rs : List Float) :
    Scalar.isNaN (largest (rs.map Scalar.abs)) = true ↔ ∃ r ∈ rs, Scalar.isNaN r = true := by
  have hzero : Scalar.isNaN (0 : Float) = false := rfl
  rw [largest_eq, isNaN_foldl_keep, hzero, or_iff_right Bool.false_ne_true]
  simp [isNaN_scalarAbs]

theorem isGreatest_largest_abs (h : ∀ r ∈ rs, Scalar.isNaN r = false) :
    IsGreatest {v | v ∈ (0 :: rs).map Scalar.abs} (largest (rs.map Scalar.abs)) := by
  rw [largest_eq, List.map_cons, abs_zero]
  refine isGreatest_foldl_keep (List.forall_mem_cons.mpr ⟨rfl, ?_⟩)
  rw [List.forall_mem_map]
  exact fun r hr => (isNaN_scalarAbs r).trans (h r hr)

/-- The zero that the search starts from is only found if it is one of the magnitudes. -/
theorem largest_abs_mem (hne : rs ≠ []) (h : ∀ r ∈ rs, Scalar.isNaN r = false) :
    ∃ r ∈ rs, largest (rs.map Scalar.abs) = Scalar.abs r := by
  obtain ⟨hmem, hupper⟩ := isGreatest_largest_abs h
  obtain ⟨v, hv, heq⟩ := List.mem_map.mp hmem
  rcases List.mem_cons.mp hv with rfl | hv
  · obtain ⟨r, hr⟩ := List.exists_mem_of_ne_nil rs hne
    have hle : Scalar.abs r ≤ Scalar.abs 0 := by
      rw [heq]
      exact hupper (List.mem_map_of_mem (List.mem_cons_of_mem _ hr))
    have hge : Scalar.abs 0 ≤ Scalar.abs r := zero_le_magnitude (h r hr)
    exact ⟨r, hr, heq.symm.trans (abs_eq_of_le hge hle)⟩
  · exact ⟨v, hv, heq.symm⟩

/-- `worst` is the largest magnitude of the values in a list, and NaN if one of them is. -/
structure IsLargestMagnitude (worst : Float) (rs : List Float) : Prop where
  isNaN_iff : worst.isNaN = true ↔ ∃ r ∈ rs, r.isNaN = true
  nonneg : worst.isNaN = false → 0 ≤ worst
  le : worst.isNaN = false → ∀ r ∈ rs, r.abs ≤ worst
  mem : worst.isNaN = false → ∃ r ∈ rs, worst = r.abs

theorem isLargestMagnitude_largest (hne : rs ≠ []) :
    IsLargestMagnitude (largest (rs.map Scalar.abs)) rs := by
  have hnumbers (h : Scalar.isNaN (largest (rs.map Scalar.abs)) = false) :
      ∀ r ∈ rs, Scalar.isNaN r = false := by
    rw [← Bool.not_eq_true, isNaN_largest_abs_iff] at h
    simpa using h
  refine ⟨isNaN_largest_abs_iff rs, fun h => ?_, fun h r hr => ?_, fun h => ?_⟩
  · exact (isGreatest_largest_abs (hnumbers h)).2 List.mem_cons_self
  · exact (isGreatest_largest_abs (hnumbers h)).2
      (List.mem_map_of_mem (List.mem_cons_of_mem 0 hr))
  · exact largest_abs_mem hne (hnumbers h)

/-- The magnitudes may be compared in any order. -/
theorem largest_abs_perm (hperm : rs.Perm ss) :
    largest (rs.map Scalar.abs) = largest (ss.map Scalar.abs) := by
  by_cases h : ∃ r ∈ rs, Scalar.isNaN r = true
  · have h' : ∃ r ∈ ss, Scalar.isNaN r = true := by
      obtain ⟨r, hr, hnan⟩ := h
      exact ⟨r, hperm.mem_iff.mp hr, hnan⟩
    exact eq_of_isNaN ((isNaN_largest_abs_iff rs).mpr h) ((isNaN_largest_abs_iff ss).mpr h')
  · have hrs : ∀ r ∈ rs, Scalar.isNaN r = false := by simpa using h
    have hss : ∀ r ∈ ss, Scalar.isNaN r = false := fun r hr => hrs r (hperm.mem_iff.mpr hr)
    obtain ⟨hmem, hupper⟩ := isGreatest_largest_abs hrs
    obtain ⟨hmem', hupper'⟩ := isGreatest_largest_abs hss
    have hmap : ((0 :: rs).map Scalar.abs).Perm ((0 :: ss).map Scalar.abs) :=
      (hperm.cons 0).map Scalar.abs
    have hle := hupper' (hmap.mem_iff.mp hmem)
    have hge := hupper (hmap.mem_iff.mpr hmem')
    obtain ⟨v, -, hv⟩ := List.mem_map.mp hmem
    obtain ⟨w, -, hw⟩ := List.mem_map.mp hmem'
    rw [← hv, ← hw] at hle hge ⊢
    exact abs_eq_of_le hle hge

theorem isFinite_largest_abs_iff (rs : List Float) :
    Scalar.isFinite (largest (rs.map Scalar.abs)) = true ↔
      ∀ r ∈ rs, Scalar.isFinite r = true := by
  constructor
  · intro hfinite r hr
    have hnumber := isNaN_of_isFinite hfinite
    have hnan : ∀ r ∈ rs, Scalar.isNaN r = false := by
      rw [← Bool.not_eq_true, isNaN_largest_abs_iff] at hnumber
      simpa using hnumber
    have hle := (isGreatest_largest_abs hnan).2 (List.mem_map_of_mem (List.mem_cons_of_mem 0 hr))
    exact isFinite_of_abs_le hfinite hle
  · intro h
    have hnan : ∀ r ∈ rs, Scalar.isNaN r = false := fun r hr => isNaN_of_isFinite (h r hr)
    obtain ⟨v, hv, heq⟩ := List.mem_map.mp (isGreatest_largest_abs hnan).1
    rw [← heq, isFinite_scalarAbs]
    rcases List.mem_cons.mp hv with rfl | hv
    · rfl
    · exact h v hv

end Double

end DenseSystem
