import DenseSystem.Decimal.Layout
import DenseSystem.Decimal.Numeral
import DenseSystem.Proofs.Decimal.Nearest

/-! # Doubles read back

The digits that are printed for a finite double are read back as that double, sign included. The
search for few digits only accepts digits of the same magnitude; zeros that are dropped at their end
return with the leading power of ten; and where the point stands is undone by the numeral's reader.
-/
namespace DenseSystem.Decimal

/-! ## Shortest digits -/

variable {n : ℕ}

theorem magnitude_of_shortened? {exact d : Decimal} {cut : ℕ}
    (h : shortened? n exact cut = some d) : d.magnitude = n := by
  unfold shortened? at h
  dsimp only at h
  split at h
  · next hbelow habove =>
    split at h <;> cases h
    · exact eq_of_beq hbelow
    · exact eq_of_beq habove
  · next hbelow _ =>
    cases h
    exact eq_of_beq hbelow
  · next _ habove =>
    cases h
    exact eq_of_beq habove
  · cases h

theorem magnitude_shortestFrom {exact : Decimal} (h : exact.magnitude = n) (cut : ℕ) :
    (shortestFrom n exact cut).magnitude = n := by
  induction cut with
  | zero => exact h
  | succ cut ih =>
    unfold shortestFrom
    cases hcut : shortened? n exact (cut + 1) with
    | none => exact ih
    | some d => exact magnitude_of_shortened? hcut

theorem magnitude_shortest (h : n < Magnitude.infinity) : (shortest n).magnitude = n :=
  magnitude_shortestFrom (magnitude_exact h) _

theorem coefficient_ne_zero {d : Decimal} (h : d.magnitude ≠ 0) : d.coefficient ≠ 0 := by
  intro hzero
  exact h (by rw [magnitude, if_pos hzero])

/-! ## Significant digits -/

theorem isDigit_of_mem_digits {d : Decimal} {c : Char} (hc : c ∈ d.digits) : c.isDigit :=
  Nat.isDigit_of_mem_toDigits (by decide) (by decide) hc

theorem digits_eq (d : Decimal) :
    ∃ zeros, d.digits = d.significant ++ List.replicate zeros '0' := by
  have hzeros : d.digits.rtakeWhile (· == '0') =
      List.replicate (d.digits.rtakeWhile (· == '0')).length '0' := by
    rw [List.eq_replicate_iff]
    exact ⟨rfl, fun c hc => eq_of_beq (List.mem_rtakeWhile_imp (p := (· == '0')) hc)⟩
  have hsplit : d.significant ++ d.digits.rtakeWhile (· == '0') = d.digits :=
    List.rdropWhile_append_rtakeWhile
  use (d.digits.rtakeWhile (· == '0')).length
  rw [← hzeros, hsplit]

theorem isDigit_of_mem_significant {d : Decimal} {c : Char} (hc : c ∈ d.significant) :
    c.isDigit := by
  obtain ⟨zeros, hdigits⟩ := digits_eq d
  exact isDigit_of_mem_digits (hdigits ▸ List.mem_append_left _ hc)

theorem significant_ne_nil {d : Decimal} (h : d.coefficient ≠ 0) : d.significant ≠ [] := by
  intro hnil
  obtain ⟨zeros, hdigits⟩ := digits_eq d
  rw [hnil, List.nil_append] at hdigits
  have hcoefficient : Nat.ofDigitChars 10 d.digits 0 = d.coefficient :=
    Nat.ofDigitChars_ten_toDigits
  rw [hdigits, Nat.ofDigitChars_replicate_zero, Nat.mul_zero] at hcoefficient
  exact h hcoefficient.symm

theorem value_eq_significant (d : Decimal) :
    d.value = Nat.ofDigitChars 10 d.significant 0 *
      10 ^ (d.leading + 1 - d.significant.length) := by
  obtain ⟨zeros, hdigits⟩ := digits_eq d
  have hcoefficient : d.coefficient = 10 ^ zeros * Nat.ofDigitChars 10 d.significant 0 := by
    rw [← Nat.ofDigitChars_replicate_zero, ← Nat.ofDigitChars_append, ← hdigits]
    exact Nat.ofDigitChars_ten_toDigits.symm
  have hexponent : d.leading + 1 - d.significant.length = zeros + d.exponent := by
    rw [leading, hdigits, List.length_append, List.length_replicate]
    omega
  rw [value, hexponent, zpow_add₀ (by norm_num), zpow_natCast, hcoefficient]
  push_cast
  ring

/-! ## The point -/

variable {whole fraction digits : List Char} {leading : ℤ}

theorem natural?_of_isDigit (hne : digits ≠ []) (h : ∀ c ∈ digits, c.isDigit) :
    natural? digits = some (Nat.ofDigitChars 10 digits 0) := by
  have hall : digits.all Char.isDigit = true := List.all_eq_true.mpr h
  simp [natural?, hne, hall]

theorem unsigned?_of_isDigit (hne : digits ≠ []) (h : ∀ c ∈ digits, c.isDigit) :
    unsigned? digits = some ⟨Nat.ofDigitChars 10 digits 0, 0⟩ := by
  have hwhole : digits.takeWhile Char.isDigit = digits := List.takeWhile_eq_self_iff.mpr h
  have hrest : digits.dropWhile Char.isDigit = [] := List.dropWhile_eq_nil_iff.mpr h
  simp [unsigned?, hwhole, hrest, natural?_of_isDigit hne h, exponent?]

theorem unsigned?_point (hwhole : ∀ c ∈ whole, c.isDigit) (hfraction : ∀ c ∈ fraction, c.isDigit)
    (hne : whole ++ fraction ≠ []) :
    unsigned? (whole ++ '.' :: fraction) =
      some ⟨Nat.ofDigitChars 10 (whole ++ fraction) 0, -fraction.length⟩ := by
  have hnot : ('.' : Char).isDigit = false := by decide
  have htake : (whole ++ '.' :: fraction).takeWhile Char.isDigit = whole := by
    rw [List.takeWhile_append_of_pos hwhole, List.takeWhile_cons_of_neg (by simp [hnot]),
      List.append_nil]
  have hdrop : (whole ++ '.' :: fraction).dropWhile Char.isDigit = '.' :: fraction := by
    rw [List.dropWhile_append_of_pos hwhole, List.dropWhile_cons_of_neg (by simp [hnot])]
  have hdigits : ∀ c ∈ whole ++ fraction, c.isDigit := by
    intro c hc
    rcases List.mem_append.mp hc with hc | hc
    · exact hwhole c hc
    · exact hfraction c hc
  have hread : fraction.takeWhile Char.isDigit = fraction :=
    List.takeWhile_eq_self_iff.mpr hfraction
  have hrest : fraction.dropWhile Char.isDigit = [] := List.dropWhile_eq_nil_iff.mpr hfraction
  simp [unsigned?, htake, hdrop, hread, hrest, natural?_of_isDigit hne hdigits, exponent?]

theorem isDigit_of_mem_zeros {zeros : ℕ} {c : Char} (hc : c ∈ List.replicate zeros '0') :
    c.isDigit := by
  rw [List.eq_of_mem_replicate hc]
  decide

/-! ## Digits around the point -/

/-- A number with a point, which stands only where digits follow. -/
def pointed (whole fraction : List Char) : List Char :=
  whole ++ if fraction = [] then [] else '.' :: fraction

theorem unsigned?_pointed (hne : whole ≠ []) (hdigits : ∀ c ∈ whole ++ fraction, c.isDigit) :
    unsigned? (pointed whole fraction) =
      some ⟨Nat.ofDigitChars 10 (whole ++ fraction) 0, -fraction.length⟩ := by
  have hwhole : ∀ c ∈ whole, c.isDigit := fun c hc => hdigits c (List.mem_append_left _ hc)
  have hfraction : ∀ c ∈ fraction, c.isDigit := fun c hc => hdigits c (List.mem_append_right _ hc)
  rw [pointed]
  by_cases hnil : fraction = []
  · rw [if_pos hnil, hnil, List.append_nil]
    exact unsigned?_of_isDigit hne hwhole
  · rw [if_neg hnil]
    exact unsigned?_point hwhole hfraction (by simp [hne])

/-- The digits on both sides of the point, with the zeros that are filled in. -/
structure Pointed (digits : List Char) (leading : ℤ) (whole fraction : List Char) : Prop where
  text : Layout.plain.withoutExponent digits leading = pointed whole fraction
  whole_ne_nil : whole ≠ []
  isDigit : ∀ c ∈ whole ++ fraction, c.isDigit
  value : (Nat.ofDigitChars 10 (whole ++ fraction) 0 : ℚ) * 10 ^ (-fraction.length : ℤ) =
    Nat.ofDigitChars 10 digits 0 * 10 ^ (leading + 1 - digits.length)

theorem pointed_of_neg (hne : digits ≠ []) (h : ∀ c ∈ digits, c.isDigit) (hneg : leading < 0) :
    Pointed digits leading ['0'] (List.replicate (-leading - 1).toNat '0' ++ digits) where
  text := by
    rw [Layout.withoutExponent, if_pos hneg, pointed, if_neg (by simp [hne])]
    rfl
  whole_ne_nil := List.cons_ne_nil _ _
  isDigit c hc := by
    rw [List.singleton_append] at hc
    rcases List.mem_cons.mp hc with rfl | hc
    · decide
    · rcases List.mem_append.mp hc with hc | hc
      · exact isDigit_of_mem_zeros hc
      · exact h c hc
  value := by
    -- The zeros between the point and the digits count as digits without value.
    have hexponent : (-(List.replicate (-leading - 1).toNat '0' ++ digits).length : ℤ) =
        leading + 1 - digits.length := by
      rw [List.length_append, List.length_replicate]
      omega
    rw [hexponent, ← List.append_assoc, Nat.ofDigitChars_append, Nat.ofDigitChars_append,
      Nat.ofDigitChars_replicate_zero]
    rfl

theorem pointed_of_length_le (hne : digits ≠ []) (h : ∀ c ∈ digits, c.isDigit)
    (hnonneg : 0 ≤ leading) (hlength : digits.length ≤ leading.toNat + 1) :
    Pointed digits leading
      (digits ++ List.replicate (leading.toNat + 1 - digits.length) '0') [] where
  text := by
    rw [Layout.withoutExponent, if_neg (not_lt.mpr hnonneg)]
    dsimp only
    rw [List.drop_eq_nil_iff.mpr hlength, List.take_of_length_le hlength]
    rfl
  whole_ne_nil := by simp [hne]
  isDigit c hc := by
    rw [List.append_nil] at hc
    rcases List.mem_append.mp hc with hc | hc
    · exact h c hc
    · exact isDigit_of_mem_zeros hc
  value := by
    have hwidth : leading + 1 = ((leading.toNat + 1 : ℕ) : ℤ) := by omega
    rw [List.append_nil, Nat.ofDigitChars_append, Nat.ofDigitChars_replicate_zero, hwidth,
      ← Nat.cast_sub hlength, zpow_natCast]
    push_cast
    simp [mul_comm]

theorem pointed_of_lt_length (h : ∀ c ∈ digits, c.isDigit) (hnonneg : 0 ≤ leading)
    (hlength : leading.toNat + 1 < digits.length) :
    Pointed digits leading (digits.take (leading.toNat + 1)) (digits.drop (leading.toNat + 1)) where
  text := by
    have hfraction : digits.drop (leading.toNat + 1) ≠ [] := by
      rw [Ne, List.drop_eq_nil_iff]
      exact not_le.mpr hlength
    rw [Layout.withoutExponent, if_neg (not_lt.mpr hnonneg), pointed, if_neg hfraction]
    dsimp only
    rw [Nat.sub_eq_zero_of_le hlength.le, List.replicate_zero, List.append_nil]
    split
    · next hnil => exact absurd hnil hfraction
    · rfl
  whole_ne_nil := by
    rw [Ne, List.take_eq_nil_iff]
    rintro (hzero | rfl)
    · exact absurd hzero (Nat.succ_ne_zero _)
    · exact absurd hlength (Nat.not_lt_zero _)
  isDigit := by rwa [List.take_append_drop]
  value := by
    have hwidth : leading + 1 = ((leading.toNat + 1 : ℕ) : ℤ) := by omega
    rw [List.take_append_drop, List.length_drop, hwidth, Nat.cast_sub hlength.le, neg_sub]

theorem exists_pointed (hne : digits ≠ []) (h : ∀ c ∈ digits, c.isDigit) (leading : ℤ) :
    ∃ whole fraction, Pointed digits leading whole fraction := by
  rcases lt_or_ge leading 0 with hneg | hnonneg
  · exact ⟨_, _, pointed_of_neg hne h hneg⟩
  · rcases le_or_gt digits.length (leading.toNat + 1) with hlength | hlength
    · exact ⟨_, _, pointed_of_length_le hne h hnonneg hlength⟩
    · exact ⟨_, _, pointed_of_lt_length h hnonneg hlength⟩

/-- Digits written without exponent are read as the number that they and the power of the first
make up. -/
theorem unsigned?_withoutExponent (hne : digits ≠ []) (h : ∀ c ∈ digits, c.isDigit)
    (leading : ℤ) :
    ∃ d, unsigned? (Layout.plain.withoutExponent digits leading) = some d ∧
      d.value = Nat.ofDigitChars 10 digits 0 * 10 ^ (leading + 1 - digits.length) := by
  obtain ⟨whole, fraction, hpointed⟩ := exists_pointed hne h leading
  rw [hpointed.text]
  exact ⟨_, unsigned?_pointed hpointed.whole_ne_nil hpointed.isDigit, hpointed.value⟩

/-! ## Names and signs -/

/-- The first character is a digit, so that no name is read. -/
theorem withoutExponent_eq_cons (hne : digits ≠ []) (h : ∀ c ∈ digits, c.isDigit) (leading : ℤ) :
    ∃ c rest, Layout.plain.withoutExponent digits leading = c :: rest ∧ c.isDigit := by
  obtain ⟨whole, fraction, hpointed⟩ := exists_pointed hne h leading
  obtain ⟨first, others, rfl⟩ := List.exists_cons_of_ne_nil hpointed.whole_ne_nil
  exact ⟨first, _, hpointed.text, hpointed.isDigit first (by simp)⟩

theorem isDigit_or_point_of_mem (hne : digits ≠ []) (h : ∀ c ∈ digits, c.isDigit) {c : Char}
    (hc : c ∈ Layout.plain.withoutExponent digits leading) : c.isDigit ∨ c = '.' := by
  obtain ⟨whole, fraction, hpointed⟩ := exists_pointed hne h leading
  have hdigit : c ∈ whole ++ fraction → c.isDigit := hpointed.isDigit c
  rw [hpointed.text, pointed, List.mem_append] at hc
  rcases hc with hc | hc
  · exact .inl (hdigit (List.mem_append_left _ hc))
  · split at hc
    · cases hc
    · rcases List.mem_cons.mp hc with rfl | hc
      · exact .inr rfl
      · exact .inl (hdigit (List.mem_append_right _ hc))

theorem splitSign_of_isDigit {c : Char} (hc : c.isDigit) (rest : List Char) :
    splitSign (c :: rest) = (false, c :: rest) := by
  unfold splitSign
  split
  · next heq =>
    cases heq
    exact absurd hc (by decide)
  · next heq =>
    cases heq
    exact absurd hc (by decide)
  · rfl

theorem toLower_of_isDigit {c : Char} (hc : c.isDigit) : c.toLower = c := by
  refine Char.toLower_eq_of_not_isUpper ?_
  simp only [Char.isDigit, Char.isUpper, Bool.and_eq_true, decide_eq_true_eq,
    UInt32.le_iff_toNat_le, ge_iff_le] at hc ⊢
  change 48 ≤ c.val.toNat ∧ c.val.toNat ≤ 57 at hc
  change ¬(65 ≤ c.val.toNat ∧ c.val.toNat ≤ 90)
  omega

/-- A text that starts with a digit, with or without a minus, is no name of an infinity or of NaN. -/
theorem float?_of_isDigit {c : Char} (hc : c.isDigit) (rest : List Char) (negative : Bool) :
    float? (if negative then '-' :: c :: rest else c :: rest) =
      (unsigned? (c :: rest)).map fun d => Magnitude.toFloat negative d.magnitude := by
  have hsplit : splitSign (if negative then '-' :: c :: rest else c :: rest) =
      (negative, c :: rest) := by
    cases negative
    · exact splitSign_of_isDigit hc rest
    · rfl
  have hi : c ≠ 'i' := by
    rintro rfl
    exact absurd hc (by decide)
  have hn : c ≠ 'n' := by
    rintro rfl
    exact absurd hc (by decide)
  simp [float?, hsplit, toLower_of_isDigit hc, hi, hn]

/-! ## Magnitudes as texts -/

/-- The digits that are laid out, one zero for zero. -/
theorem magnitude_eq_withoutExponent (h : n < Magnitude.infinity) :
    ∃ digits leading, Layout.plain.magnitude n = Layout.plain.withoutExponent digits leading ∧
      digits ≠ [] ∧ (∀ c ∈ digits, c.isDigit) ∧
      ∀ d : Decimal, d.value = Nat.ofDigitChars 10 digits 0 * 10 ^ (leading + 1 - digits.length) →
        d.magnitude = n := by
  unfold Layout.magnitude
  by_cases hzero : n = 0
  · subst hzero
    rw [if_pos rfl]
    refine ⟨['0'], 0, rfl, by simp, by simp, fun d hd => ?_⟩
    have hcoefficient : d.coefficient = 0 := by
      rw [← value_eq_zero_iff, hd]
      simp [Nat.ofDigitChars]
    rw [magnitude, if_pos hcoefficient]
  · rw [if_neg hzero]
    have hmagnitude := magnitude_shortest h
    have hcoefficient : (shortest n).coefficient ≠ 0 :=
      coefficient_ne_zero (by rw [hmagnitude]; exact hzero)
    refine ⟨(shortest n).significant, (shortest n).leading, rfl,
      significant_ne_nil hcoefficient, fun c hc => isDigit_of_mem_significant hc, fun d hd => ?_⟩
    rw [magnitude_congr (hd.trans (value_eq_significant _).symm), hmagnitude]

end Decimal

namespace Magnitude

/-! ## The bits of a double -/

/-- Sign and magnitude are all there is to a double's bits. -/
theorem toFloat_ofFloat (x : Float) : toFloat (isNegative x) (ofFloat x) = x := by
  have hsign : signBit = 0x8000000000000000 := rfl
  have hbits : (if isNegative x then signBit + ofFloat x else ofFloat x) = x.toBits.toNat := by
    have hlt := x.toBits.toNat_lt
    simp only [isNegative, ofFloat, decide_eq_true_eq, hsign]
    split_ifs <;> omega
  rw [toFloat, hbits, UInt64.ofNat_toNat, Float.ofBits_toBits]

section Bits

open Float.Model Float.Model.UnpackedFloat

theorem toNat_unpackExponent (x : Float) :
    (@unpackExponent Format.binary64 x.toBits.toBitVec).toNat =
      x.toBits.toNat / 2 ^ 52 % 2 ^ 11 := by
  rw [unpackExponent, BitVec.toNat_cast, BitVec.extractLsb_toNat, ← Nat.shiftRight_eq_div_pow]
  rfl

theorem toNat_unpackMantissa (x : Float) :
    (@unpackMantissa Format.binary64 x.toBits.toBitVec).toNat = x.toBits.toNat % 2 ^ 52 := by
  rw [unpackMantissa, BitVec.toNat_cast, BitVec.extractLsb_toNat]
  rfl

/-- Above infinity are the bits of NaN; those of the finite doubles are below. -/
theorem isFinite_and_isNaN (x : Float) :
    x.isFinite = decide (ofFloat x < infinity) ∧ x.isNaN = decide (infinity < ofFloat x) := by
  have hexponent := toNat_unpackExponent x
  have hmantissa := toNat_unpackMantissa x
  have hlt := x.toBits.toNat_lt
  have hones : @unpackExponent Format.binary64 x.toBits.toBitVec =
      -1#(Format.binary64.exponentBits) ↔ x.toBits.toNat / 2 ^ 52 % 2 ^ 11 = 2047 := by
    rw [← hexponent, ← BitVec.toNat_inj]
    rfl
  have hzero : @unpackMantissa Format.binary64 x.toBits.toBitVec =
      0#(Format.binary64.mantissaBitsWithoutImplicit) ↔ x.toBits.toNat % 2 ^ 52 = 0 := by
    rw [← hmantissa, ← BitVec.toNat_inj]
    rfl
  change (UnpackedFloat.unpack Format.binary64 x.toBits.toBitVec).isFinite =
      decide (x.toBits.toNat % 0x8000000000000000 < 2047 * 0x10000000000000) ∧
    (UnpackedFloat.unpack Format.binary64 x.toBits.toBitVec).isNaN =
      decide (2047 * 0x10000000000000 < x.toBits.toNat % 0x8000000000000000)
  unfold UnpackedFloat.unpack
  dsimp only
  split
  · next h =>
    have hall := hones.mp h
    split
    · next hm =>
      have := hzero.mp hm
      simp [UnpackedFloat.isFinite, UnpackedFloat.isNaN]
      omega
    · next hm =>
      have := mt hzero.mpr hm
      simp [UnpackedFloat.isFinite, UnpackedFloat.isNaN]
      omega
  · next h =>
    have hsome := mt hones.mpr h
    have hfin : x.toBits.toNat % 0x8000000000000000 < 2047 * 0x10000000000000 := by omega
    split
    · split <;> simp [UnpackedFloat.isFinite, UnpackedFloat.isNaN, hfin, hfin.le]
    · simp [UnpackedFloat.isFinite, UnpackedFloat.isNaN, hfin, hfin.le]

end Bits

theorem isFinite_iff (x : Float) : x.isFinite = true ↔ ofFloat x < infinity := by
  rw [(isFinite_and_isNaN x).1, decide_eq_true_eq]

theorem isNaN_iff (x : Float) : x.isNaN = true ↔ infinity < ofFloat x := by
  rw [(isFinite_and_isNaN x).2, decide_eq_true_eq]

end Magnitude

namespace Decimal

/-! ## Doubles as texts -/

variable {x : Float}

theorem text_of_isFinite (h : x.isFinite = true) :
    (Layout.plain.text x).toList =
      if Magnitude.isNegative x then '-' :: Layout.plain.magnitude (Magnitude.ofFloat x)
      else Layout.plain.magnitude (Magnitude.ofFloat x) := by
  have hlt := (Magnitude.isFinite_iff x).mp h
  have hnan : ¬x.isNaN = true := fun hnan => lt_asymm hlt ((Magnitude.isNaN_iff x).mp hnan)
  rw [Layout.text, signed, if_neg hnan]
  dsimp only
  rw [if_neg hlt.ne, String.toList_ofList]

/-- The only other texts. -/
theorem text_of_not_isFinite (h : x.isFinite = false) :
    Layout.plain.text x = "NaN" ∨ Layout.plain.text x = "inf" ∨ Layout.plain.text x = "-inf" := by
  have hge : ¬Magnitude.ofFloat x < Magnitude.infinity := by
    rw [← Magnitude.isFinite_iff, h]
    exact Bool.false_ne_true
  rw [Layout.text, signed]
  split
  · exact .inl rfl
  · next hnan =>
    have hle := mt (Magnitude.isNaN_iff x).mpr hnan
    have heq : Magnitude.ofFloat x = Magnitude.infinity := le_antisymm (not_lt.mp hle) (not_lt.mp hge)
    dsimp only
    rw [if_pos heq]
    split
    · exact .inr (.inr rfl)
    · exact .inr (.inl rfl)

/-- A finite double is read back from its text, bit for bit. -/
theorem float?_text (h : x.isFinite = true) : float? (Layout.plain.text x).toList = some x := by
  obtain ⟨digits, leading, htext, hne, hdigits, hmagnitude⟩ :=
    magnitude_eq_withoutExponent ((Magnitude.isFinite_iff x).mp h)
  obtain ⟨c, rest, hcons, hc⟩ := withoutExponent_eq_cons hne hdigits leading
  obtain ⟨d, hd, hvalue⟩ := unsigned?_withoutExponent hne hdigits leading
  rw [text_of_isFinite h, htext, hcons, float?_of_isDigit hc, ← hcons, hd, Option.map_some,
    hmagnitude d hvalue, Magnitude.toFloat_ofFloat]

/-- A double without finite value is read back as one without. -/
theorem float?_text_of_not_isFinite (h : x.isFinite = false) :
    ∃ y, float? (Layout.plain.text x).toList = some y ∧ y.isFinite = false := by
  rcases text_of_not_isFinite h with htext | htext | htext <;> rw [htext]
  · exact ⟨0.0 / 0.0, rfl, by decide +kernel⟩
  · exact ⟨_, rfl, by decide +kernel⟩
  · exact ⟨_, rfl, by decide +kernel⟩

theorem text_ne_nil (x : Float) : (Layout.plain.text x).toList ≠ [] := by
  cases h : x.isFinite with
  | false => rcases text_of_not_isFinite h with htext | htext | htext <;> simp [htext]
  | true =>
    obtain ⟨digits, leading, htext, hne, hdigits, -⟩ :=
      magnitude_eq_withoutExponent ((Magnitude.isFinite_iff x).mp h)
    obtain ⟨c, rest, hcons, -⟩ := withoutExponent_eq_cons hne hdigits leading
    rw [text_of_isFinite h, htext, hcons]
    split <;> exact List.cons_ne_nil _ _

end Decimal

end DenseSystem
