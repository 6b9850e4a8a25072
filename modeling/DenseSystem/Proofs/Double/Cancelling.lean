import Mathlib.Tactic
import DenseSystem.Proofs.Double.Finite
import DenseSystem.Proofs.Double.Unpacked

/-! # Exact cancellation

Rounding does not keep equal values from cancelling: a finite value less its product with the
quotient of another by itself is a zero, and zeros stay zeros under what an elimination does to
them.
-/
namespace DenseSystem

/-- Arithmetic in which zeros, and differences of equals, are met exactly. -/
class Cancelling (α : Type) [Scalar α] : Prop extends Spoiling α where
  isZero_sub_mul_div_self {f p : α} (hf : Scalar.isFinite f = true)
    (hp : Scalar.isFinite p = true) (hne : Scalar.isZero p = false) :
    Scalar.isZero (f - f * (p / p)) = true
  isZero_div {x p : α} (hx : Scalar.isZero x = true) (hp : Scalar.isNaN p = false)
    (hne : Scalar.isZero p = false) : Scalar.isZero (x / p) = true
  isZero_mul {f x : α} (hf : Scalar.isFinite f = true) (hx : Scalar.isZero x = true) :
    Scalar.isZero (f * x) = true
  isZero_sub {x y : α} (hx : Scalar.isZero x = true) (hy : Scalar.isZero y = true) :
    Scalar.isZero (x - y) = true
  isNearZero_of_isZero {x : α} (h : Scalar.isZero x = true) : isNearZero x = true

theorem Cancelling.isZero_eq_false {α : Type} [Scalar α] [Cancelling α] {p : α}
    (h : isNearZero p = false) : Scalar.isZero p = false := by
  by_contra hz
  rw [Bool.not_eq_false] at hz
  rw [isNearZero_of_isZero hz] at h
  cases h

namespace Double

open Float.Model Float.Model.UnpackedFloat

theorem isZero_of_unpack {x : Float} {s : Sign} (h : x.toModel.unpack = .zero s) :
    Scalar.isZero x = true := by
  change (x.toModel.unpack.compare (.zero .positive) == some .eq) = true
  rw [h]
  rfl

theorem isZero_pack (s : Sign) : Scalar.isZero (Float.ofModel (Float.Model.pack (.zero s))) = true := by
  cases s <;> exact isZero_of_unpack rfl

theorem isZero_sub {x y : Float} (hx : Scalar.isZero x = true) (hy : Scalar.isZero y = true) :
    Scalar.isZero (Float.sub x y) = true := by
  obtain ⟨s, hs⟩ := unpack_of_isZero hx
  obtain ⟨t, ht⟩ := unpack_of_isZero hy
  change Scalar.isZero (Float.ofModel (Float.Model.pack
    (UnpackedFloat.sub Format.binary64 x.toModel.unpack y.toModel.unpack))) = true
  rw [hs, ht]
  cases s <;> cases t <;> exact isZero_pack _

theorem isZero_mul {f x : Float} (hf : Scalar.isFinite f = true) (hx : Scalar.isZero x = true) :
    Scalar.isZero (Float.mul f x) = true := by
  obtain ⟨s, hs⟩ := unpack_of_isZero hx
  change f.toModel.unpack.isFinite = true at hf
  change Scalar.isZero (Float.ofModel (Float.Model.pack
    (UnpackedFloat.mul Format.binary64 f.toModel.unpack x.toModel.unpack))) = true
  rw [hs]
  cases hunpack : f.toModel.unpack with
  | notANumber => rw [hunpack] at hf; cases hf
  | infinity t => rw [hunpack] at hf; cases hf
  | zero t => exact isZero_pack _
  | finite t m e hm => exact isZero_pack _

theorem isZero_div {x p : Float} (hx : Scalar.isZero x = true) (hp : Scalar.isNaN p = false)
    (hne : Scalar.isZero p = false) : Scalar.isZero (Float.div x p) = true := by
  obtain ⟨s, hs⟩ := unpack_of_isZero hx
  change p.toModel.unpack.isNaN = false at hp
  change Scalar.isZero (Float.ofModel (Float.Model.pack
    (UnpackedFloat.div Format.binary64 x.toModel.unpack p.toModel.unpack))) = true
  rw [hs]
  cases hunpack : p.toModel.unpack with
  | notANumber => rw [hunpack] at hp; cases hp
  | infinity t => exact isZero_pack _
  | zero t =>
    rw [isZero_of_unpack hunpack] at hne
    cases hne
  | finite t m e hm => exact isZero_pack _

theorem isNearZero_of_isZero {x : Float} (h : Scalar.isZero x = true) : isNearZero x = true := by
  obtain ⟨s, hs⟩ := unpack_of_isZero h
  have habs : Scalar.abs x = Float.ofModel (Float.Model.pack (.zero .positive)) := by
    change Float.ofModel (Float.Model.pack x.toModel.unpack.abs) = _
    rw [hs]
    rfl
  rw [isNearZero, habs]
  decide +kernel

theorem unpack_div_self {p : Float} (hp : Scalar.isFinite p = true)
    (hne : Scalar.isZero p = false) :
    (Float.div p p).toModel.unpack = .finite .positive (2 ^ 52) (-52) (by decide) := by
  change p.toModel.unpack.isFinite = true at hp
  change (Float.Model.pack (UnpackedFloat.div Format.binary64 p.toModel.unpack
    p.toModel.unpack)).unpack = _
  cases hunpack : p.toModel.unpack with
  | notANumber => rw [hunpack] at hp; cases hp
  | infinity t => rw [hunpack] at hp; cases hp
  | zero t =>
    rw [isZero_of_unpack hunpack] at hne
    cases hne
  | finite t m e hm =>
    rw [div_self t hm]
    exact unpack_pack one_inRange

theorem isZero_sub_mul_div_self {f p : Float} (hf : Scalar.isFinite f = true)
    (hp : Scalar.isFinite p = true) (hne : Scalar.isZero p = false) :
    Scalar.isZero (Float.sub f (Float.mul f (Float.div p p))) = true := by
  have hproduct : Float.mul f (Float.div p p) = Float.ofModel (Float.Model.pack
      (UnpackedFloat.mul Format.binary64 f.toModel.unpack
        (.finite .positive (2 ^ 52) (-52) (by decide)))) := by
    rw [← unpack_div_self hp hne]
    rfl
  change f.toModel.unpack.isFinite = true at hf
  cases hunpack : f.toModel.unpack with
  | notANumber => rw [hunpack] at hf; cases hf
  | infinity t => rw [hunpack] at hf; cases hf
  | zero t =>
    rw [hproduct, hunpack]
    exact isZero_sub (isZero_of_unpack hunpack) (isZero_pack _)
  | finite t m e hm =>
    have hrange := inRange_of_unpack hunpack
    rw [hproduct, hunpack, mul_one hrange]
    change Scalar.isZero (Float.ofModel (Float.Model.pack (UnpackedFloat.sub Format.binary64
      f.toModel.unpack (Float.Model.pack (.finite t m e hm)).unpack))) = true
    rw [hunpack, unpack_pack hrange, sub_self]
    exact isZero_pack _

end Double

instance : Cancelling Float where
  isZero_sub_mul_div_self := Double.isZero_sub_mul_div_self
  isZero_div := Double.isZero_div
  isZero_mul := Double.isZero_mul
  isZero_sub := Double.isZero_sub
  isNearZero_of_isZero := Double.isNearZero_of_isZero

end DenseSystem
