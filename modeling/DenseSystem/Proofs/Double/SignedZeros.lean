import Mathlib
import DenseSystem.Proofs.Double.Cancelling
import DenseSystem.Proofs.Double.Negation

/-! # The sign of a zero

A zero has a sign, but the two zeros are the same number, and whatever is computed from one of them
is the same number as what is computed from the other. Added to any other value or subtracted from
it, a zero changes nothing. What eliminations of equal values need to know of this is gathered in
one class.
-/
namespace DenseSystem

variable {α : Type} [Scalar α]

/-- The same value, or zeros with any signs. -/
def SameValue (x y : α) : Prop := x = y ∨ Scalar.isZero x = true ∧ Scalar.isZero y = true

/-- Arithmetic in which the sign of a zero makes no difference to other values, and one is neutral. -/
class SignlessZeros (α : Type) [Scalar α] : Prop extends Cancelling α where
  add_of_isZero (x : α) {z : α} (hz : Scalar.isZero z = true) : SameValue (x + z) x
  of_isZero_add {z : α} (hz : Scalar.isZero z = true) (x : α) : SameValue (z + x) x
  sub_of_isZero (x : α) {z : α} (hz : Scalar.isZero z = true) : SameValue (x - z) x
  of_isZero_sub {z : α} (hz : Scalar.isZero z = true) (x : α) : SameValue (z - x) (-x)
  isZero_of_isZero_mul {z x : α} (hz : Scalar.isZero z = true) (hx : Scalar.isFinite x = true) :
    Scalar.isZero (z * x) = true
  isZero_sub_self {x : α} (hx : Scalar.isFinite x = true) : Scalar.isZero (x - x) = true
  one_mul (x : α) : 1 * x = x
  div_one (x : α) : x / 1 = x
  div_self {p : α} (hp : Scalar.isFinite p = true) (hne : Scalar.isZero p = false) : p / p = 1
  isZero_one : Scalar.isZero (1 : α) = false
  isZero_emptySum : Scalar.isZero (Scalar.emptySum : α) = true
  abs_of_isZero {z : α} (hz : Scalar.isZero z = true) : Scalar.abs z = 0

theorem SignlessZeros.isNaN_eq_false [SignlessZeros α] {p : α} (hp : Scalar.isFinite p = true)
    (hne : Scalar.isZero p = false) : Scalar.isNaN p = false := by
  have hquotient : Scalar.isFinite (p / p) = true := by
    rw [div_self hp hne]
    exact Spoiling.isFinite_one
  exact (Spoiling.of_div hquotient).2

namespace SameValue

variable {x x' y y' z p f f' : α}

theorem refl (x : α) : SameValue x x := .inl rfl

theorem of_isZero (hx : Scalar.isZero x = true) (hy : Scalar.isZero y = true) : SameValue x y :=
  .inr ⟨hx, hy⟩

theorem symm (h : SameValue x y) : SameValue y x := h.imp Eq.symm And.symm

theorem isZero_eq (h : SameValue x y) : Scalar.isZero x = Scalar.isZero y := by
  rcases h with rfl | ⟨hx, hy⟩
  · rfl
  · rw [hx, hy]

theorem eq_of_isZero_eq_false (h : SameValue x y) (hx : Scalar.isZero x = false) : x = y := by
  rcases h with h | ⟨hzero, -⟩
  · exact h
  · rw [hx] at hzero
    cases hzero

theorem trans (h : SameValue x y) (h' : SameValue y z) : SameValue x z := by
  rcases h with rfl | ⟨hx, hy⟩
  · exact h'
  · exact of_isZero hx (h'.isZero_eq ▸ hy)

theorem sub [SignlessZeros α] (h : SameValue x x') (h' : SameValue y y') :
    SameValue (x - y) (x' - y') := by
  have hleft : SameValue (x - y) (x' - y) := by
    rcases h with rfl | ⟨hx, hx'⟩
    · exact refl _
    · exact (SignlessZeros.of_isZero_sub hx y).trans (SignlessZeros.of_isZero_sub hx' y).symm
  rcases h' with rfl | ⟨hy, hy'⟩
  · exact hleft
  · exact hleft.trans
      ((SignlessZeros.sub_of_isZero x' hy).trans (SignlessZeros.sub_of_isZero x' hy').symm)

theorem mul_left [Cancelling α] (hf : Scalar.isFinite f = true) (h : SameValue x y) :
    SameValue (f * x) (f * y) := by
  rcases h with rfl | ⟨hx, hy⟩
  · exact refl _
  · exact of_isZero (Cancelling.isZero_mul hf hx) (Cancelling.isZero_mul hf hy)

theorem div [Cancelling α] (hp : Scalar.isNaN p = false) (hne : Scalar.isZero p = false)
    (h : SameValue x y) : SameValue (x / p) (y / p) := by
  rcases h with rfl | ⟨hx, hy⟩
  · exact refl _
  · exact of_isZero (Cancelling.isZero_div hx hp hne) (Cancelling.isZero_div hy hp hne)

theorem isZero_sub [SignlessZeros α] (h : SameValue x y) (hx : Scalar.isFinite x = true) :
    Scalar.isZero (x - y) = true := by
  rcases h with rfl | ⟨hx, hy⟩
  · exact SignlessZeros.isZero_sub_self hx
  · exact Cancelling.isZero_sub hx hy

end SameValue

/-! ## Doubles -/

namespace Double

open Float.Model Float.Model.UnpackedFloat

theorem compare_eq_eq_iff (u v : UnpackedFloat) : u.compare v = some .eq ↔
    u.isNaN = false ∧ (u = v ∨ ∃ s t, u = .zero s ∧ v = .zero t) := by
  have hpositive : compare Sign.positive Sign.positive = .eq := rfl
  have hnegative : compare Sign.negative Sign.negative = .eq := rfl
  have hless : compare Sign.negative Sign.positive = .lt := rfl
  have hgreater : compare Sign.positive Sign.negative = .gt := rfl
  rcases u with s | _ | s | ⟨s, m, e, hm⟩ <;> rcases v with t | _ | t | ⟨t, n, f, hn⟩ <;>
    (try cases s) <;> (try cases t) <;>
    simp [UnpackedFloat.compare, UnpackedFloat.isNaN, Ordering.then_eq_eq, hpositive, hnegative,
      hless, hgreater, and_comm]

theorem ofModel_pack_unpack (x : Float) : Float.ofModel (Float.Model.pack x.toModel.unpack) = x :=
  congrArg Float.ofModel (pack_unpack x.toModel)

theorem eq_of_unpack {x y : Float} (h : x.toModel.unpack = y.toModel.unpack) : x = y := by
  rw [← ofModel_pack_unpack x, h, ofModel_pack_unpack]

/-- Doubles are equal in a comparison when they are the same value, NaN excepted. -/
theorem beq_iff_sameValue {x y : Float} :
    (x == y) = true ↔ Scalar.isNaN x = false ∧ SameValue x y := by
  change (x.toModel.unpack.compare y.toModel.unpack == some .eq) = true ↔
    x.toModel.unpack.isNaN = false ∧ SameValue x y
  rw [beq_iff_eq, compare_eq_eq_iff]
  refine and_congr_right fun _ => ⟨?_, ?_⟩
  · rintro (h | ⟨s, t, hs, ht⟩)
    · exact .inl (eq_of_unpack h)
    · exact .inr ⟨isZero_of_unpack hs, isZero_of_unpack ht⟩
  · rintro (rfl | ⟨hx, hy⟩)
    · exact .inl rfl
    · obtain ⟨s, hs⟩ := unpack_of_isZero hx
      obtain ⟨t, ht⟩ := unpack_of_isZero hy
      exact .inr ⟨s, t, hs, ht⟩

theorem beq_of_sameValue {x y : Float} (h : SameValue x y) (hx : Scalar.isFinite x = true) :
    (x == y) = true := by
  refine beq_iff_sameValue.mpr ⟨?_, h⟩
  change x.toModel.unpack.isFinite = true at hx
  change x.toModel.unpack.isNaN = false
  cases hunpack : x.toModel.unpack with
  | notANumber =>
    rw [hunpack] at hx
    cases hx
  | _ => rfl

/-- What is packed from the same value, or from zeros, is the same value. -/
theorem sameValue_pack {u v : UnpackedFloat} (h : u = v ∨ ∃ s t, u = .zero s ∧ v = .zero t) :
    SameValue (Float.ofModel (Float.Model.pack u)) (Float.ofModel (Float.Model.pack v)) := by
  rcases h with rfl | ⟨s, t, rfl, rfl⟩
  · exact .refl _
  · exact .of_isZero (isZero_pack s) (isZero_pack t)

/-- An operation that ignores its zeros gives the same value as if it were not there. -/
theorem sameValue_pack_of_isZero {f : UnpackedFloat → UnpackedFloat → UnpackedFloat}
    {g : UnpackedFloat → UnpackedFloat}
    (h : ∀ s u, f (.zero s) u = g u ∨ ∃ t t', f (.zero s) u = .zero t ∧ g u = .zero t')
    {z : Float} (hz : Scalar.isZero z = true) (u : UnpackedFloat) :
    SameValue (Float.ofModel (Float.Model.pack (f z.toModel.unpack u)))
      (Float.ofModel (Float.Model.pack (g u))) := by
  obtain ⟨s, hs⟩ := unpack_of_isZero hz
  rw [hs]
  exact sameValue_pack (h s u)

theorem add_of_isZero (x : Float) {z : Float} (hz : Scalar.isZero z = true) :
    SameValue (Float.add x z) x := by
  have h := sameValue_pack_of_isZero (f := fun z u => UnpackedFloat.add Format.binary64 u z)
    (g := id) (fun s u => ?_) hz x.toModel.unpack
  · rw [id, ofModel_pack_unpack] at h
    exact h
  · cases u with
    | zero t => exact .inr (by cases s <;> cases t <;> exact ⟨_, _, rfl, rfl⟩)
    | _ => exact .inl rfl

theorem of_isZero_add {z : Float} (hz : Scalar.isZero z = true) (x : Float) :
    SameValue (Float.add z x) x := by
  have h := sameValue_pack_of_isZero (f := UnpackedFloat.add Format.binary64)
    (g := id) (fun s u => ?_) hz x.toModel.unpack
  · rw [id, ofModel_pack_unpack] at h
    exact h
  · cases u with
    | zero t => exact .inr (by cases s <;> cases t <;> exact ⟨_, _, rfl, rfl⟩)
    | _ => exact .inl rfl

theorem sub_of_isZero (x : Float) {z : Float} (hz : Scalar.isZero z = true) :
    SameValue (Float.sub x z) x := by
  have h := sameValue_pack_of_isZero (f := fun z u => UnpackedFloat.sub Format.binary64 u z)
    (g := id) (fun s u => ?_) hz x.toModel.unpack
  · rw [id, ofModel_pack_unpack] at h
    exact h
  · cases u with
    | zero t => exact .inr (by cases s <;> cases t <;> exact ⟨_, _, rfl, rfl⟩)
    | _ => exact .inl rfl

theorem of_isZero_sub {z : Float} (hz : Scalar.isZero z = true) (x : Float) :
    SameValue (Float.sub z x) (Float.neg x) := by
  refine sameValue_pack_of_isZero (f := UnpackedFloat.sub Format.binary64)
    (g := UnpackedFloat.neg) (fun s u => ?_) hz x.toModel.unpack
  cases u with
  | zero t => exact .inr (by cases s <;> cases t <;> exact ⟨_, _, rfl, rfl⟩)
  | _ => exact .inl rfl

theorem isZero_of_isZero_mul {z x : Float} (hz : Scalar.isZero z = true)
    (hx : Scalar.isFinite x = true) : Scalar.isZero (Float.mul z x) = true := by
  obtain ⟨s, hs⟩ := unpack_of_isZero hz
  change x.toModel.unpack.isFinite = true at hx
  change Scalar.isZero (Float.ofModel (Float.Model.pack
    (UnpackedFloat.mul Format.binary64 z.toModel.unpack x.toModel.unpack))) = true
  rw [hs]
  cases hunpack : x.toModel.unpack with
  | notANumber => rw [hunpack] at hx; cases hx
  | infinity t => rw [hunpack] at hx; cases hx
  | zero t => exact isZero_pack _
  | finite t m e hm => exact isZero_pack _

theorem isZero_sub_self {x : Float} (hx : Scalar.isFinite x = true) :
    Scalar.isZero (Float.sub x x) = true := by
  change x.toModel.unpack.isFinite = true at hx
  change Scalar.isZero (Float.ofModel (Float.Model.pack
    (UnpackedFloat.sub Format.binary64 x.toModel.unpack x.toModel.unpack))) = true
  cases hunpack : x.toModel.unpack with
  | notANumber => rw [hunpack] at hx; cases hx
  | infinity t => rw [hunpack] at hx; cases hx
  | zero t => cases t <;> exact isZero_pack _
  | finite t m e hm =>
    rw [sub_self]
    exact isZero_pack _

theorem abs_of_isZero {z : Float} (hz : Scalar.isZero z = true) : Float.abs z = 0.0 := by
  obtain ⟨s, hs⟩ := unpack_of_isZero hz
  change Float.ofModel (Float.Model.pack z.toModel.unpack.abs) = 0.0
  rw [hs]
  rfl

/-! ## Factors and divisors of one -/

theorem one_mul_finite {s : Sign} {m : ℕ} {e : ℤ} {hm : 0 < m} (h : InRange m e) :
    UnpackedFloat.mul Format.binary64 (.finite .positive (2 ^ 52) (-52) (by decide))
      (.finite s m e hm) = .finite s m e hm := by
  have hsign : .positive * s = s := by cases s <;> rfl
  have hexponent : -52 + e = e - (52 : ℕ) := by omega
  simp only [UnpackedFloat.mul, hsign, Nat.mul_comm _ m, hexponent]
  exact roundWithAccuracy_mul_two_pow s hm h 52

theorem div_one_finite {s : Sign} {m : ℕ} {e : ℤ} {hm : 0 < m} (h : InRange m e) :
    UnpackedFloat.div Format.binary64 (.finite s m e hm)
      (.finite .positive (2 ^ 52) (-52) (by decide)) = .finite s m e hm := by
  have hlog : m.log2 < 53 := (Nat.log2_lt hm.ne').mpr h.lt
  have hleast := h.least_le
  obtain ⟨excess, hexcess⟩ : ∃ excess : ℕ,
      max ((m.log2 : ℤ) + e - 53) (-1074) = e - excess :=
    ⟨(e - max ((m.log2 : ℤ) + e - 53) (-1074)).toNat, by omega⟩
  have hcore : divCore Format.binary64 m e (2 ^ 52) (-52) =
      (m * 2 ^ excess, e - excess, .exact) := by
    have htotal : totalExponent m e - totalExponent (2 ^ 52) (-52) = (m.log2 : ℤ) + e := by
      simp only [totalExponent, Nat.log2_two_pow]
      omega
    have htarget : min (e - -52) (Format.binary64.targetExponent
        (totalExponent m e - totalExponent (2 ^ 52) (-52))) = e - excess := by
      rw [htotal, ← hexcess]
      change min (e - -52) (max ((m.log2 : ℤ) + e - 53) (-1074)) = _
      omega
    have hamount : (e - -52 - (e - excess)).toNat = excess + 52 := by omega
    have hshift : m <<< (excess + 52) = m * 2 ^ excess * 2 ^ 52 := by
      rw [Nat.shiftLeft_eq, Nat.pow_add, Nat.mul_assoc]
    simp only [divCore, htarget, hamount, hshift, Nat.mul_mod_left,
      Nat.mul_div_cancel _ (Nat.two_pow_pos 52)]
    rfl
  have hsign : s / .positive = s := by cases s <;> rfl
  simp only [UnpackedFloat.div, hcore, hsign]
  exact roundWithAccuracy_mul_two_pow s hm h excess

theorem unpack_one : (1.0 : Float).toModel.unpack = .finite .positive (2 ^ 52) (-52) (by decide) :=
  rfl

theorem one_mul (x : Float) : Float.mul 1.0 x = x := by
  have h : UnpackedFloat.mul Format.binary64 (.finite .positive (2 ^ 52) (-52) (by decide))
      x.toModel.unpack = x.toModel.unpack := by
    cases hunpack : x.toModel.unpack with
    | notANumber => rfl
    | infinity s => cases s <;> rfl
    | zero s => cases s <;> rfl
    | finite s m e hm => exact one_mul_finite (inRange_of_unpack hunpack)
  rw [← unpack_one] at h
  exact (congrArg (fun u => Float.ofModel (Float.Model.pack u)) h).trans (ofModel_pack_unpack x)

theorem div_one (x : Float) : Float.div x 1.0 = x := by
  have h : UnpackedFloat.div Format.binary64 x.toModel.unpack
      (.finite .positive (2 ^ 52) (-52) (by decide)) = x.toModel.unpack := by
    cases hunpack : x.toModel.unpack with
    | notANumber => rfl
    | infinity s => cases s <;> rfl
    | zero s => cases s <;> rfl
    | finite s m e hm => exact div_one_finite (inRange_of_unpack hunpack)
  rw [← unpack_one] at h
  exact (congrArg (fun u => Float.ofModel (Float.Model.pack u)) h).trans (ofModel_pack_unpack x)

end Double

instance : SignlessZeros Float where
  add_of_isZero := Double.add_of_isZero
  of_isZero_add := Double.of_isZero_add
  sub_of_isZero := Double.sub_of_isZero
  of_isZero_sub := Double.of_isZero_sub
  isZero_of_isZero_mul := Double.isZero_of_isZero_mul
  isZero_sub_self := Double.isZero_sub_self
  one_mul := Double.one_mul
  div_one := Double.div_one
  div_self hp hne := Double.eq_of_unpack (Double.unpack_div_self hp hne)
  isZero_one := by decide +kernel
  isZero_emptySum := by decide +kernel
  abs_of_isZero := Double.abs_of_isZero

end DenseSystem
