import Mathlib

/-! # Doubles that survive rounding

A double that is unpacked, multiplied by one and packed again is the same double. The statements
here are about mantissas and exponents; the exponent of a finite double is the one that rounding
aims at, so nothing is lost when zeros are shifted in and out.
-/
namespace DenseSystem.Double

open Float.Model Float.Model.UnpackedFloat

/-- The mantissas and exponents of finite doubles: all 53 bits are in use unless the exponent is the
least one. -/
structure InRange (m : ℕ) (e : ℤ) : Prop where
  lt : m < 2 ^ 53
  least_le : -1074 ≤ e
  le_greatest : e ≤ 971
  full : e = -1074 ∨ 2 ^ 52 ≤ m

theorem toNat_one_append (v : BitVec 52) : (1#1 ++ v).toNat = 2 ^ 52 + v.toNat := by
  rw [BitVec.toNat_append, ← Nat.shiftLeft_add_eq_or_of_lt v.isLt]
  simp [Nat.shiftLeft_eq]

theorem inRange_of_unpack {x : Float.Model} {s : Sign} {m : ℕ} {e : ℤ} {hm : 0 < m}
    (h : x.unpack = .finite s m e hm) : InRange m e := by
  change UnpackedFloat.unpack Format.binary64 x.toBits.toBitVec = _ at h
  unfold UnpackedFloat.unpack at h
  have hmantissa := (@unpackMantissa Format.binary64 x.toBits.toBitVec).isLt
  have hexponent := (@unpackExponent Format.binary64 x.toBits.toBitVec).isLt
  have hbias : (Format.binary64.exponentBias : ℤ) = 1023 := rfl
  dsimp only at h hmantissa hexponent
  split at h
  · split at h <;> cases h
  · next hne =>
    have hlt : (@unpackExponent Format.binary64 x.toBits.toBitVec).toNat ≠ 2047 :=
      fun heq => hne (BitVec.eq_of_toNat_eq heq)
    split at h
    · next hzero =>
      have hleast : (@unpackExponent Format.binary64 x.toBits.toBitVec).toNat = 0 :=
        congrArg BitVec.toNat hzero
      split at h
      · cases h
      · cases h
        exact ⟨by omega, by omega, by omega, .inl (by omega)⟩
    · next hpos =>
      have hge : (@unpackExponent Format.binary64 x.toBits.toBitVec).toNat ≠ 0 :=
        fun heq => hpos (BitVec.eq_of_toNat_eq heq)
      cases h
      rw [toNat_one_append]
      exact ⟨by omega, by omega, by omega, .inr (by omega)⟩

/-! ## Shifting zeros out -/

theorem log2_mul_two_pow {m : ℕ} (hm : 0 < m) (k : ℕ) : (m * 2 ^ k).log2 = m.log2 + k := by
  induction k with
  | zero => rw [Nat.pow_zero, Nat.mul_one, Nat.add_zero]
  | succ k ih =>
    have hne : m * 2 ^ k ≠ 0 := (Nat.mul_pos hm (Nat.two_pow_pos k)).ne'
    rw [Nat.pow_succ', Nat.mul_left_comm, Nat.log2_two_mul hne, ih, Nat.add_assoc]

/-- Bits that are zero leave no trace in the rounding. -/
theorem shiftRight_mul_two_pow (m k : ℕ) :
    ExtendedMantissa.ofMantissaAndAccuracy (m * 2 ^ k) .exact >>> k =
      ExtendedMantissa.ofMantissaAndAccuracy m .exact := by
  induction k generalizing m with
  | zero => rw [Nat.pow_zero, Nat.mul_one]; rfl
  | succ k ih =>
    have hstep : ExtendedMantissa.ofMantissaAndAccuracy (m * 2 ^ (k + 1)) .exact >>> (k + 1) =
        (ExtendedMantissa.ofMantissaAndAccuracy (m * 2 * 2 ^ k) .exact >>> k).shiftRightOne := by
      rw [Nat.mul_assoc, ← Nat.pow_succ']
      rfl
    rw [hstep, ih]
    simp [ExtendedMantissa.shiftRightOne, ExtendedMantissa.ofMantissaAndAccuracy]

theorem targetExponent_eq {m : ℕ} {e : ℤ} (hm : 0 < m) (h : InRange m e) :
    Format.binary64.targetExponent (totalExponent m e) = e := by
  have hlt : m.log2 < 53 := (Nat.log2_lt hm.ne').mpr h.lt
  have htarget : Format.binary64.targetExponent (totalExponent m e) =
      max ((m.log2 : ℤ) + 1 + e - 53) (-1074) := by
    simp only [Format.targetExponent, totalExponent]
    rfl
  have hleast := h.least_le
  rw [htarget]
  rcases h.full with rfl | hfull
  · omega
  · have hge : 52 ≤ m.log2 := (Nat.le_log2 hm.ne').mpr hfull
    omega

/-- A mantissa that only has zeros in excess is rounded to what it was. -/
theorem roundWithAccuracy_mul_two_pow (s : Sign) {m : ℕ} {e : ℤ} (hm : 0 < m) (h : InRange m e)
    (k : ℕ) : roundWithAccuracy Format.binary64 s (m * 2 ^ k) (e - k) .exact =
      .finite s m e hm := by
  have htotal : totalExponent (m * 2 ^ k) (e - k) = totalExponent m e := by
    rw [totalExponent, totalExponent, log2_mul_two_pow hm]
    omega
  have hfirst : shiftToTargetExponent Format.binary64 (m * 2 ^ k) (e - k) .exact =
      (ExtendedMantissa.ofMantissaAndAccuracy m .exact, e) := by
    have hamount : (e - (e - k)).toNat = k := by omega
    simp only [shiftToTargetExponent, shiftToExponent, htotal, targetExponent_eq hm h, hamount,
      shiftRight_mul_two_pow]
    rw [Int.sub_add_cancel]
  have hsecond : shiftToTargetExponent Format.binary64 m e .exact =
      (ExtendedMantissa.ofMantissaAndAccuracy m .exact, e) := by
    simp only [shiftToTargetExponent, shiftToExponent, targetExponent_eq hm h, Int.sub_self]
    rw [Int.toNat_zero, Int.natCast_zero, Int.add_zero]
    rfl
  have hrounded : (ExtendedMantissa.ofMantissaAndAccuracy m .exact).roundedMantissa = m := rfl
  unfold roundWithAccuracy
  simp only [hfirst, hrounded, hsecond]
  exact dif_neg hm.ne'

/-! ## Quotient, product and difference -/

variable {s : Sign} {m : ℕ} {e : ℤ} {hm : 0 < m}

theorem one_inRange : InRange (2 ^ 52) (-52) := ⟨by decide, by decide, by decide, .inr le_rfl⟩

theorem div_self (s : Sign) (hm : 0 < m) :
    UnpackedFloat.div Format.binary64 (.finite s m e hm) (.finite s m e hm) =
      .finite .positive (2 ^ 52) (-52) (by decide) := by
  have hcore : divCore Format.binary64 m e m e = (2 ^ 52 * 2 ^ 1, (-52 : ℤ) - (1 : ℕ), .exact) := by
    have htarget : min (e - e) (Format.binary64.targetExponent
        (totalExponent m e - totalExponent m e)) = -53 := by
      rw [Int.sub_self, Int.sub_self]
      decide
    have hamount : (e - e - -53).toNat = 53 := by omega
    have hdiv : m <<< 53 / m = 2 ^ 53 := by
      rw [Nat.shiftLeft_eq, Nat.mul_div_cancel_left _ hm]
    have hmod : m <<< 53 % m = 0 := by rw [Nat.shiftLeft_eq, Nat.mul_mod_right]
    simp only [divCore, htarget, hamount, hdiv, hmod]
    rfl
  have hsign : s / s = .positive := by cases s <;> rfl
  simp only [UnpackedFloat.div, hcore, hsign]
  exact roundWithAccuracy_mul_two_pow .positive (by decide) one_inRange 1

theorem mul_one (h : InRange m e) :
    UnpackedFloat.mul Format.binary64 (.finite s m e hm)
      (.finite .positive (2 ^ 52) (-52) (by decide)) = .finite s m e hm := by
  have hsign : s * .positive = s := by cases s <;> rfl
  simp only [UnpackedFloat.mul, hsign]
  exact roundWithAccuracy_mul_two_pow s hm h 52

theorem sub_self : UnpackedFloat.sub Format.binary64 (.finite s m e hm) (.finite s m e hm) =
    .zero .positive := by
  simp only [UnpackedFloat.sub, Int.sub_self]
  rfl

/-! ## Packing -/

theorem unpackSign_packComponents (s : Sign) (exponent : BitVec 11) (mantissa : BitVec 52) :
    Sign.ofBitVec (unpackSign (packComponents Format.binary64 s exponent mantissa)) = s := by
  simp only [unpackSign, packComponents, BitVec.extractLsb]
  rw [BitVec.extractLsb'_append_eq_of_le (by decide),
    BitVec.extractLsb'_append_eq_of_le (by decide)]
  cases s <;> rfl

/-- A finite double in range is packed with its exponent if it has all 53 bits, and with an exponent of
zero if it has not. -/
theorem pack_finite (h : InRange m e) :
    UnpackedFloat.pack Format.binary64 (.finite s m e hm) =
      packComponents Format.binary64 s
        (if 2 ^ 52 ≤ m then BitVec.ofNat 11 (e + 1075).toNat else 0#11) (BitVec.ofNat 52 m) := by
  have hlt := h.lt
  have hleast := h.least_le
  have hgreatest := h.le_greatest
  have hbiased : (e + Format.binary64.exponentBias +
      Format.binary64.mantissaBitsWithoutImplicit).toNat = (e + 1075).toNat := by
    change (e + 1023 + 52).toNat = _
    omega
  have hfits : ¬ 2 ^ Format.binary64.exponentBits ≤ (e + 1075).toNat + 1 := by
    change ¬ 2048 ≤ _
    omega
  have hlog : m.log2 + 1 = Format.binary64.mantissaBits ↔ 2 ^ 52 ≤ m := by
    change m.log2 + 1 = 53 ↔ _
    rw [← Nat.le_log2 hm.ne']
    have := (Nat.log2_lt hm.ne').mpr hlt
    omega
  rw [UnpackedFloat.pack]
  simp only [hbiased, hlog]
  rw [if_neg hfits]
  split_ifs <;> rfl

theorem unpack_normal {exponent : BitVec 11} {mantissa : BitVec 52} (hleast : exponent.toNat ≠ 0)
    (hgreatest : exponent.toNat ≠ 2047) :
    UnpackedFloat.unpack Format.binary64 (packComponents Format.binary64 s exponent mantissa) =
      .finite s (1#1 ++ mantissa).toNat ((exponent.toNat : ℤ) - 1075)
        (toNat_one_append mantissa ▸ Nat.add_pos_left (Nat.two_pow_pos 52) _) := by
  rw [UnpackedFloat.unpack]
  simp only [unpackMantissa_packComponents, unpackExponent_packComponents,
    unpackSign_packComponents]
  rw [if_neg fun h => hgreatest (congrArg BitVec.toNat h),
    if_neg fun h => hleast (congrArg BitVec.toNat h)]
  rfl

theorem unpack_subnormal {mantissa : BitVec 52} (h : 0 < mantissa.toNat) :
    UnpackedFloat.unpack Format.binary64 (packComponents Format.binary64 s 0#11 mantissa) =
      .finite s mantissa.toNat (-1074) h := by
  have hne : mantissa ≠ 0#52 := by
    rintro rfl
    cases h
  rw [UnpackedFloat.unpack]
  simp only [unpackMantissa_packComponents, unpackExponent_packComponents,
    unpackSign_packComponents]
  rw [if_neg (by decide), if_pos trivial, dif_neg hne]
  rfl

theorem unpack_pack (h : InRange m e) :
    (Float.Model.pack (.finite s m e hm)).unpack = .finite s m e hm := by
  have hlt := h.lt
  have hleast := h.least_le
  have hgreatest := h.le_greatest
  change UnpackedFloat.unpack Format.binary64 (UnpackedFloat.pack Format.binary64 _) = _
  rw [pack_finite h]
  by_cases hnormal : 2 ^ 52 ≤ m
  · have hexponent : (BitVec.ofNat 11 (e + 1075).toNat).toNat = (e + 1075).toNat :=
      Nat.mod_eq_of_lt (by omega)
    have hmantissa : (1#1 ++ BitVec.ofNat 52 m).toNat = m := by
      rw [toNat_one_append, BitVec.toNat_ofNat]
      omega
    have he : ((BitVec.ofNat 11 (e + 1075).toNat).toNat : ℤ) - 1075 = e := by omega
    rw [if_pos hnormal, unpack_normal (by omega) (by omega)]
    simp only [hmantissa, he]
  · have hmantissa : (BitVec.ofNat 52 m).toNat = m := Nat.mod_eq_of_lt (by omega)
    have he : e = -1074 := h.full.resolve_right hnormal
    subst he
    rw [if_neg hnormal, unpack_subnormal (hmantissa.symm ▸ hm)]
    simp only [hmantissa]

end DenseSystem.Double
