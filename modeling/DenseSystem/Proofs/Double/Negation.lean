import Mathlib
import DenseSystem.Scalar
import DenseSystem.Proofs.Double.Unpacked

/-! # Negated doubles

A sign is kept apart from mantissa and exponent, and rounding takes no notice of it. So a negation
is undone by another one, and it passes through a product, whatever is rounded or overflows there.
What running products need to know of this is gathered in one class.
-/
namespace DenseSystem

/-- Arithmetic in which a product changes its sign with its first factor, and nothing else. -/
class SignedProducts (α : Type) [Scalar α] : Prop where
  neg_neg (x : α) : - -x = x
  neg_mul (x y : α) : -x * y = -(x * y)

namespace Double

open Float.Model Float.Model.UnpackedFloat

/-! ## Unpacking and packing -/

/-- The 64 bits of a double are a sign, an exponent and a mantissa. -/
theorem exists_packComponents (bits : BitVec Format.binary64.numBits) :
    ∃ s exponent mantissa, packComponents Format.binary64 s exponent mantissa = bits := by
  obtain ⟨s, hs⟩ : ∃ s : Sign, s.toBitVec = bits.extractLsb' 63 1 := by
    rcases BitVec.eq_zero_or_eq_one (bits.extractLsb' 63 1) with h | h
    · exact ⟨.positive, h.symm⟩
    · exact ⟨.negative, h.symm⟩
  have hupper : bits.extractLsb' 63 1 ++ bits.extractLsb' 52 11 = bits.extractLsb' 52 12 :=
    BitVec.extractLsb'_append_extractLsb'_eq_extractLsb' rfl
  refine ⟨s, bits.extractLsb' 52 11, bits.extractLsb' 0 52, ?_⟩
  rw [packComponents, hs, hupper]
  exact BitVec.extractLsb'_append_extractLsb'

/-- What is unpacked from three parts is packed into the same parts, a NaN excepted. -/
theorem pack_unpack_packComponents (s : Sign) (exponent : BitVec 11) (mantissa : BitVec 52)
    (h : exponent = -1#11 → mantissa = 0#52) :
    UnpackedFloat.pack Format.binary64 (UnpackedFloat.unpack Format.binary64
        (packComponents Format.binary64 s exponent mantissa)) =
      packComponents Format.binary64 s exponent mantissa := by
  have hmantissa := mantissa.isLt
  have hexponent := exponent.isLt
  -- infinities, zeros, subnormal and normal numbers are packed in four ways
  by_cases hgreatest : exponent = -1#11
  · obtain rfl := h hgreatest
    subst hgreatest
    rw [UnpackedFloat.unpack]
    simp only [unpackMantissa_packComponents, unpackExponent_packComponents,
      unpackSign_packComponents, if_pos]
    rfl
  by_cases hleast : exponent = 0#11
  · subst hleast
    by_cases hzero : mantissa = 0#52
    · subst hzero
      rw [UnpackedFloat.unpack]
      simp only [unpackMantissa_packComponents, unpackExponent_packComponents,
        unpackSign_packComponents, if_pos]
      cases s <;> rfl
    · have hpos : 0 < mantissa.toNat := by
        rw [Nat.pos_iff_ne_zero]
        exact fun heq => hzero (BitVec.eq_of_toNat_eq heq)
      rw [unpack_subnormal hpos, pack_finite ⟨by omega, by omega, by omega, .inl rfl⟩,
        if_neg (by omega), BitVec.ofNat_toNat, BitVec.setWidth_eq]
  · have hne : exponent.toNat ≠ 0 := fun heq => hleast (BitVec.eq_of_toNat_eq heq)
    have hne' : exponent.toNat ≠ 2047 := fun heq => hgreatest (BitVec.eq_of_toNat_eq heq)
    have hbiased : ((exponent.toNat : ℤ) - 1075 + 1075).toNat = exponent.toNat := by omega
    have hcut : BitVec.ofNat 52 (1#1 ++ mantissa).toNat = mantissa := by
      apply BitVec.eq_of_toNat_eq
      rw [toNat_one_append, BitVec.toNat_ofNat, Nat.add_mod_left, Nat.mod_eq_of_lt hmantissa]
    have hfull := toNat_one_append mantissa
    rw [unpack_normal hne hne', pack_finite ⟨by omega, by omega, by omega, .inr (by omega)⟩,
      if_pos (by omega), hcut, hbiased, BitVec.ofNat_toNat, BitVec.setWidth_eq]

/-- Unpacking and packing a double changes nothing, there being only one NaN. -/
theorem pack_unpack (x : Float.Model) : Float.Model.pack x.unpack = x := by
  obtain ⟨⟨bits⟩, hvalid⟩ := x
  have hbits : UnpackedFloat.pack Format.binary64 (UnpackedFloat.unpack Format.binary64 bits) =
      bits := by
    obtain ⟨s, exponent, mantissa, rfl⟩ := exists_packComponents bits
    by_cases h : exponent = -1#11 → mantissa = 0#52
    · exact pack_unpack_packComponents s exponent mantissa h
    · push Not at h
      have hnan : packComponents Format.binary64 s exponent mantissa = packedNaN Format.binary64 :=
        hvalid.eq_packedNaN (unpackExponent_packComponents.trans h.1)
          (unpackMantissa_packComponents.trans_ne h.2)
      rw [hnan]
      rfl
  simp only [Float.Model.pack, Float.Model.unpack, hbits]

/-! ## Negation -/

theorem unpack_packComponents_neg (s : Sign) (exponent : BitVec 11) (mantissa : BitVec 52) :
    UnpackedFloat.unpack Format.binary64 (packComponents Format.binary64 (-s) exponent mantissa) =
      (UnpackedFloat.unpack Format.binary64
        (packComponents Format.binary64 s exponent mantissa)).neg := by
  rw [UnpackedFloat.unpack, UnpackedFloat.unpack]
  simp only [unpackMantissa_packComponents, unpackExponent_packComponents,
    unpackSign_packComponents]
  split_ifs <;> rfl

/-- A value is packed alike with either sign, whether it fits or not. -/
theorem unpack_pack_neg (u : UnpackedFloat) :
    (Float.Model.pack u.neg).unpack = (Float.Model.pack u).unpack.neg := by
  change UnpackedFloat.unpack Format.binary64 (UnpackedFloat.pack Format.binary64 u.neg) =
    (UnpackedFloat.unpack Format.binary64 (UnpackedFloat.pack Format.binary64 u)).neg
  cases u with
  | notANumber => rfl
  | infinity s => exact unpack_packComponents_neg s _ _
  | zero s => exact unpack_packComponents_neg s _ _
  | finite s m e hm =>
    rw [UnpackedFloat.neg, UnpackedFloat.pack, UnpackedFloat.pack]
    dsimp only
    split_ifs <;> exact unpack_packComponents_neg s _ _

theorem unpack_neg (x : Float) : (-x).toModel.unpack = x.toModel.unpack.neg := by
  change (Float.Model.pack x.toModel.unpack.neg).unpack = _
  rw [unpack_pack_neg, pack_unpack]

theorem neg_mul_sign (s t : Sign) : -s * t = -(s * t) := by
  cases s <;> cases t <;> rfl

theorem roundWithAccuracy_neg (s : Sign) (m : ℕ) (e : ℤ) (accuracy : Accuracy) :
    roundWithAccuracy Format.binary64 (-s) m e accuracy =
      (roundWithAccuracy Format.binary64 s m e accuracy).neg := by
  unfold roundWithAccuracy
  dsimp only
  split_ifs <;> rfl

theorem mul_neg_left (u v : UnpackedFloat) : UnpackedFloat.mul Format.binary64 u.neg v =
    (UnpackedFloat.mul Format.binary64 u v).neg := by
  rcases u with s | _ | s | ⟨s, m, e, hm⟩ <;> rcases v with t | _ | t | ⟨t, n, f, hn⟩ <;>
    simp only [UnpackedFloat.mul, UnpackedFloat.neg, neg_mul_sign, roundWithAccuracy_neg]

theorem neg_neg_unpacked (u : UnpackedFloat) : u.neg.neg = u := by
  rcases u with s | _ | s | ⟨s, m, e, hm⟩ <;> first | rfl | (cases s <;> rfl)

end Double

instance : SignedProducts Float where
  neg_neg x := by
    change Float.ofModel (Float.Model.pack (-x).toModel.unpack.neg) = x
    rw [Double.unpack_neg, Double.neg_neg_unpacked, Double.pack_unpack]
  neg_mul x y := by
    change Float.ofModel (Float.Model.pack (Float.Model.UnpackedFloat.mul _
        (-x).toModel.unpack y.toModel.unpack)) =
      Float.ofModel (Float.Model.pack (Float.Model.pack (Float.Model.UnpackedFloat.mul _
        x.toModel.unpack y.toModel.unpack)).unpack.neg)
    rw [Double.unpack_neg, Double.mul_neg_left, ← Double.unpack_pack_neg, Double.pack_unpack]

end DenseSystem
