import Mathlib
import DenseSystem.Scalar
import DenseSystem.Proofs.Double.Unpacked

/-! # The order of doubles

Doubles are compared by sign, then exponent, then mantissa, and NaN with nothing. So they are ordered
as their ranks are, and two magnitudes that are not NaN and neither of which is less are the same
double. What comparisons of magnitudes need to know of this is gathered in one class.
-/
namespace DenseSystem

/-- Arithmetic in which values that are numbers are ordered, and magnitudes strictly. -/
class OrderedMagnitudes (α : Type) [Scalar α] : Prop where
  lt_asymm {x y : α} (h : Scalar.lt x y = true) : Scalar.lt y x = false
  lt_trans {x y z : α} (hxy : Scalar.lt x y = true) (hyz : Scalar.lt y z = true) :
    Scalar.lt x z = true
  abs_eq_abs {x y : α} (hx : Scalar.isNaN x = false) (hy : Scalar.isNaN y = false)
    (hxy : Scalar.lt (Scalar.abs x) (Scalar.abs y) = false)
    (hyx : Scalar.lt (Scalar.abs y) (Scalar.abs x) = false) : Scalar.abs x = Scalar.abs y
  isNaN_of_isFinite_abs {x : α} (h : Scalar.isFinite (Scalar.abs x) = true) :
    Scalar.isNaN x = false

namespace Double

open Float.Model Float.Model.UnpackedFloat

/-- The place of a value among all others, as three numbers of which the first that differs counts. -/
def rank : UnpackedFloat → ℤ ×ₗ ℤ ×ₗ ℤ
  | notANumber | zero _ => toLex (0, toLex (0, 0))
  | infinity s => toLex (s.apply 2, toLex (0, 0))
  | finite s m e _ => toLex (s.apply 1, toLex (s.apply e, s.apply m))

theorem compare_eq_lt_iff (u v : UnpackedFloat) :
    u.compare v = some .lt ↔ u.isNaN = false ∧ v.isNaN = false ∧ rank u < rank v := by
  have hsign : compare Sign.negative Sign.positive = .lt := rfl
  rcases u with s | _ | s | ⟨s, m, e, hm⟩ <;> rcases v with t | _ | t | ⟨t, n, f, hn⟩ <;>
    (try cases s) <;> (try cases t) <;>
    simp [UnpackedFloat.compare, rank, UnpackedFloat.isNaN, Prod.Lex.toLex_lt_toLex, Sign.apply,
      Ordering.then_eq_lt, Ordering.then_eq_gt, compare_lt_iff_lt, compare_gt_iff_gt, hsign]

/-- Values without sign are determined by their ranks. -/
theorem abs_eq_of_rank_eq {u v : UnpackedFloat} (hu : u.isNaN = false) (hv : v.isNaN = false)
    (h : rank u.abs = rank v.abs) : u.abs = v.abs := by
  rcases u with s | _ | s | ⟨s, m, e, hm⟩ <;> rcases v with t | _ | t | ⟨t, n, f, hn⟩ <;>
    simp_all [UnpackedFloat.abs, rank, UnpackedFloat.isNaN, Sign.apply]

theorem unpack_abs (x : Float) : x.abs.toModel.unpack = x.toModel.unpack.abs := by
  change (Float.Model.pack x.toModel.unpack.abs).unpack = _
  cases h : x.toModel.unpack with
  | notANumber => rfl
  | infinity s => exact (rfl : (Float.Model.pack (infinity .positive)).unpack = infinity .positive)
  | zero s => exact (rfl : (Float.Model.pack (zero .positive)).unpack = zero .positive)
  | finite s m e hm => exact unpack_pack (inRange_of_unpack h)

theorem lt_iff {x y : Float} : Scalar.lt x y = true ↔
    x.toModel.unpack.isNaN = false ∧ y.toModel.unpack.isNaN = false ∧
      rank x.toModel.unpack < rank y.toModel.unpack := by
  rw [← compare_eq_lt_iff]
  change decide (x.toModel < y.toModel) = true ↔ _
  rw [decide_eq_true_iff]
  change (x.toModel.unpack.compare y.toModel.unpack == some .lt) = true ↔ _
  rw [beq_iff_eq]

theorem isNaN_abs (u : UnpackedFloat) : u.abs.isNaN = u.isNaN := by
  cases u <;> rfl

theorem lt_abs_iff {x y : Float} : Scalar.lt (Scalar.abs x) (Scalar.abs y) = true ↔
    Scalar.isNaN x = false ∧ Scalar.isNaN y = false ∧
      rank x.toModel.unpack.abs < rank y.toModel.unpack.abs := by
  rw [lt_iff]
  change x.abs.toModel.unpack.isNaN = false ∧ y.abs.toModel.unpack.isNaN = false ∧
    rank x.abs.toModel.unpack < rank y.abs.toModel.unpack ↔ _
  rw [unpack_abs, unpack_abs, isNaN_abs, isNaN_abs]
  rfl

end Double

instance : OrderedMagnitudes Float where
  lt_asymm {x y} h := by
    obtain ⟨-, -, hlt⟩ := Double.lt_iff.mp h
    rw [← Bool.not_eq_true, Double.lt_iff]
    exact fun h' => lt_asymm hlt h'.2.2
  lt_trans {x y z} hxy hyz := by
    obtain ⟨hx, -, hlt⟩ := Double.lt_iff.mp hxy
    obtain ⟨-, hz, hlt'⟩ := Double.lt_iff.mp hyz
    exact Double.lt_iff.mpr ⟨hx, hz, hlt.trans hlt'⟩
  abs_eq_abs {x y} hx hy hxy hyx := by
    rw [← Bool.not_eq_true, Double.lt_abs_iff] at hxy hyx
    have hrank : Double.rank x.toModel.unpack.abs = Double.rank y.toModel.unpack.abs :=
      le_antisymm (not_lt.mp fun h => hyx ⟨hy, hx, h⟩) (not_lt.mp fun h => hxy ⟨hx, hy, h⟩)
    have hunpacked := Double.abs_eq_of_rank_eq hx hy hrank
    change Float.ofModel (Float.Model.pack x.toModel.unpack.abs) =
      Float.ofModel (Float.Model.pack y.toModel.unpack.abs)
    rw [hunpacked]
  isNaN_of_isFinite_abs {x} h := by
    change x.abs.toModel.unpack.isFinite = true at h
    rw [Double.unpack_abs] at h
    change x.toModel.unpack.isNaN = false
    cases hx : x.toModel.unpack with
    | notANumber =>
      rw [hx] at h
      cases h
    | _ => rfl

end DenseSystem
