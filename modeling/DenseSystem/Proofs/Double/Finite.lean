import DenseSystem.Scalar

/-! # Finite values

Infinity and NaN spoil every sum, difference, product and numerator they enter. Only a division by
infinity gives a finite value again. What the elimination needs to know of this is gathered in one
class, which doubles satisfy.
-/
namespace DenseSystem

/-- Arithmetic whose finite results come from finite operands, divisors excepted. -/
class Spoiling (α : Type) [Scalar α] : Prop where
  of_add {x y : α} (h : Scalar.isFinite (x + y) = true) :
    Scalar.isFinite x = true ∧ Scalar.isFinite y = true
  of_sub {x y : α} (h : Scalar.isFinite (x - y) = true) :
    Scalar.isFinite x = true ∧ Scalar.isFinite y = true
  of_mul {x y : α} (h : Scalar.isFinite (x * y) = true) :
    Scalar.isFinite x = true ∧ Scalar.isFinite y = true
  of_div {x y : α} (h : Scalar.isFinite (x / y) = true) :
    Scalar.isFinite x = true ∧ Scalar.isNaN y = false
  of_isZero {x : α} (h : Scalar.isZero x = true) : Scalar.isFinite x = true
  isFinite_zero : Scalar.isFinite (0 : α) = true
  isFinite_one : Scalar.isFinite (1 : α) = true
  isZero_zero : Scalar.isZero (0 : α) = true

namespace Double

open Float.Model

theorem isFinite_of_pack {u : UnpackedFloat} (h : (Float.Model.pack u).isFinite = true) :
    u.isFinite = true := by
  cases u with
  | notANumber => exact absurd h (by decide)
  | infinity s => cases s <;> exact absurd h (by decide)
  | zero s => rfl
  | finite s m e hm => rfl

theorem isFinite_of_add {u v : UnpackedFloat}
    (h : (UnpackedFloat.add Format.binary64 u v).isFinite = true) :
    u.isFinite = true ∧ v.isFinite = true := by
  rcases u with s | _ | _ | _ <;> rcases v with t | _ | _ | _ <;>
    first
    | exact ⟨rfl, rfl⟩
    | cases h
    | cases s <;> cases t <;> cases h

theorem isFinite_of_sub {u v : UnpackedFloat}
    (h : (UnpackedFloat.sub Format.binary64 u v).isFinite = true) :
    u.isFinite = true ∧ v.isFinite = true := by
  rcases u with s | _ | _ | _ <;> rcases v with t | _ | _ | _ <;>
    first
    | exact ⟨rfl, rfl⟩
    | cases h
    | cases s <;> cases t <;> cases h

theorem isFinite_of_mul {u v : UnpackedFloat}
    (h : (UnpackedFloat.mul Format.binary64 u v).isFinite = true) :
    u.isFinite = true ∧ v.isFinite = true := by
  cases u <;> cases v <;>
    first
    | exact ⟨rfl, rfl⟩
    | cases h

theorem isFinite_of_div {u v : UnpackedFloat}
    (h : (UnpackedFloat.div Format.binary64 u v).isFinite = true) :
    u.isFinite = true ∧ v.isNaN = false := by
  cases u <;> cases v <;>
    first
    | exact ⟨rfl, rfl⟩
    | cases h

/-- Only the two zeros equal zero. -/
theorem unpack_of_isZero {x : Float} (h : Scalar.isZero x = true) :
    ∃ s, x.toModel.unpack = .zero s := by
  change (x.toModel.unpack.compare (.zero .positive) == some .eq) = true at h
  rcases hx : x.toModel.unpack with s | _ | s | ⟨s, m, e, hm⟩
  · rw [hx] at h
    cases s <;> cases h
  · rw [hx] at h
    cases h
  · exact ⟨s, rfl⟩
  · rw [hx] at h
    cases s <;> cases h

end Double

instance : Spoiling Float where
  of_add h := Double.isFinite_of_add (Double.isFinite_of_pack h)
  of_sub h := Double.isFinite_of_sub (Double.isFinite_of_pack h)
  of_mul h := Double.isFinite_of_mul (Double.isFinite_of_pack h)
  of_div h := Double.isFinite_of_div (Double.isFinite_of_pack h)
  of_isZero {x} h := by
    obtain ⟨s, hx⟩ := Double.unpack_of_isZero h
    change x.toModel.unpack.isFinite = true
    rw [hx]
    rfl
  isFinite_zero := by decide +kernel
  isFinite_one := by decide +kernel
  isZero_zero := by decide +kernel

end DenseSystem
