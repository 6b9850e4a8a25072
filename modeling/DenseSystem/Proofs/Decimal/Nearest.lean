import Mathlib
import DenseSystem.Decimal.Magnitude.Lemmas
import DenseSystem.Proofs.Double.Unpacked

/-! # Nearest magnitudes

The magnitude nearest to a quotient is a matter of its value, however it is written, and a quotient
that is a magnitude is nearest to itself. So decimal numbers of one value have one magnitude, and the
exact expansion of a magnitude reads back as that magnitude.
-/
namespace DenseSystem

theorem roundEven_mul_right (num den : ℕ) {k : ℕ} (hk : 0 < k) :
    roundEven (num * k) (den * k) = roundEven num den := by
  have hcompare : compare (2 * (num * k % (den * k))) (den * k) =
      compare (2 * (num % den)) den := by
    rw [Nat.mul_mod_mul_right, ← Nat.mul_assoc, Nat.compare_eq_ite_lt, Nat.compare_eq_ite_lt]
    simp only [Nat.mul_lt_mul_right hk]
  simp only [roundEven, hcompare, Nat.mul_div_mul_right _ _ hk]

theorem roundEven_mul_self (n : ℕ) {den : ℕ} (h : 0 < den) : roundEven (n * den) den = n := by
  have hcompare : compare 0 den = .lt := Nat.compare_eq_lt.mpr h
  simp [roundEven, Nat.mul_div_cancel _ h, hcompare]

namespace Magnitude

variable {num den : ℕ}

theorem mul_two_pow_lt_iff (hden : 0 < den) (e : ℤ) :
    num * 2 ^ (-e).toNat < den * 2 ^ e.toNat ↔ (num : ℚ) / den < 2 ^ e := by
  have hden' : (0 : ℚ) < den := Nat.cast_pos.mpr hden
  rw [div_lt_iff₀ hden', ← Nat.cast_lt (α := ℚ)]
  push_cast
  rcases Int.le_total 0 e with he | he
  · obtain ⟨k, rfl⟩ := Int.eq_ofNat_of_zero_le he
    simp [mul_comm]
  · obtain ⟨k, rfl⟩ : ∃ k : ℕ, e = -k := ⟨(-e).toNat, by omega⟩
    simp only [neg_neg, Int.toNat_natCast, Int.toNat_neg_natCast, pow_zero, mul_one, zpow_neg,
      zpow_natCast]
    rw [inv_mul_eq_div, lt_div_iff₀ (by positivity)]

/-- The powers of two between which the binary logarithms put a quotient. -/
theorem log_bounds (hnum : 0 < num) (hden : 0 < den) :
    (num.log2 : ℤ) - den.log2 - 1 ≤ Int.log 2 ((num : ℚ) / den) ∧
      Int.log 2 ((num : ℚ) / den) ≤ (num.log2 : ℤ) - den.log2 := by
  have hquotient : (0 : ℚ) < (num : ℚ) / den := by positivity
  have hden' : (0 : ℚ) < den := Nat.cast_pos.mpr hden
  have hnum_le : (2 : ℚ) ^ num.log2 ≤ num := by exact_mod_cast Nat.log2_self_le hnum.ne'
  have hnum_lt : (num : ℚ) < 2 ^ (num.log2 + 1) := by exact_mod_cast Nat.lt_log2_self
  have hden_le : (2 : ℚ) ^ den.log2 ≤ den := by exact_mod_cast Nat.log2_self_le hden.ne'
  have hden_lt : (den : ℚ) < 2 ^ (den.log2 + 1) := by exact_mod_cast Nat.lt_log2_self
  constructor
  · rw [← Int.zpow_le_iff_le_log one_lt_two hquotient, le_div_iff₀ hden']
    calc ((2 : ℕ) : ℚ) ^ ((num.log2 : ℤ) - den.log2 - 1) * den
        ≤ 2 ^ ((num.log2 : ℤ) - den.log2 - 1) * 2 ^ (den.log2 + 1) := by
          rw [Nat.cast_ofNat]
          gcongr
      _ = 2 ^ num.log2 := by
          rw [← zpow_natCast, ← zpow_add₀ two_ne_zero, ← zpow_natCast]
          congr 1
          push_cast
          ring
      _ ≤ num := hnum_le
  · rw [← Int.lt_add_one_iff, ← Int.lt_zpow_iff_log_lt one_lt_two hquotient, div_lt_iff₀ hden']
    calc (num : ℚ) < 2 ^ (num.log2 + 1) := hnum_lt
      _ = 2 ^ ((num.log2 : ℤ) - den.log2 + 1) * 2 ^ den.log2 := by
          rw [← zpow_natCast, ← zpow_natCast, ← zpow_add₀ two_ne_zero]
          congr 1
          push_cast
          ring
      _ ≤ ((2 : ℕ) : ℚ) ^ ((num.log2 : ℤ) - den.log2 + 1) * den := by
          rw [Nat.cast_ofNat]
          gcongr

/-- The logarithm of the distance between the magnitudes around a quotient. -/
def spacing (quotient : ℚ) : ℤ := max (Int.log 2 quotient - 52) (-1074)

theorem nearest_eq (hnum : 0 < num) (hden : 0 < den) :
    nearest num den = min infinity
      ((spacing ((num : ℚ) / den) + 1074).toNat * binade +
        roundEven (num * 2 ^ (-spacing ((num : ℚ) / den)).toNat)
          (den * 2 ^ (spacing ((num : ℚ) / den)).toNat)) := by
  obtain ⟨hlower, hupper⟩ := log_bounds hnum hden
  have hquotient : (0 : ℚ) < (num : ℚ) / den := by positivity
  have htop : (if num * 2 ^ (-((num.log2 : ℤ) - den.log2)).toNat <
        den * 2 ^ ((num.log2 : ℤ) - den.log2).toNat then (num.log2 : ℤ) - den.log2 - 1
      else (num.log2 : ℤ) - den.log2) = Int.log 2 ((num : ℚ) / den) := by
    have hlt := Int.lt_zpow_iff_log_lt (b := 2) one_lt_two hquotient
      (x := (num.log2 : ℤ) - den.log2)
    rw [Nat.cast_ofNat] at hlt
    simp only [mul_two_pow_lt_iff hden, hlt]
    split_ifs <;> omega
  unfold nearest
  simp only [Nat.pow_eq, htop]
  rfl

/-- How a quotient is written does not matter. -/
theorem nearest_congr {num' den' : ℕ} (hnum : 0 < num) (hden : 0 < den) (hnum' : 0 < num')
    (hden' : 0 < den') (h : (num : ℚ) / den = (num' : ℚ) / den') :
    nearest num den = nearest num' den' := by
  have hcross : num * den' = num' * den := by
    rw [div_eq_div_iff (by positivity) (by positivity)] at h
    exact_mod_cast h
  rw [nearest_eq hnum hden, nearest_eq hnum' hden', h]
  generalize spacing ((num' : ℚ) / den') = unit
  congr 2
  calc roundEven (num * 2 ^ (-unit).toNat) (den * 2 ^ unit.toNat)
      = roundEven (num * 2 ^ (-unit).toNat * den') (den * 2 ^ unit.toNat * den') :=
        (roundEven_mul_right _ _ hden').symm
    _ = roundEven (num' * 2 ^ (-unit).toNat * den) (den' * 2 ^ unit.toNat * den) := by
        rw [Nat.mul_right_comm, hcross, Nat.mul_right_comm num', Nat.mul_right_comm den,
          Nat.mul_comm den den', Nat.mul_right_comm den']
    _ = roundEven (num' * 2 ^ (-unit).toNat) (den' * 2 ^ unit.toNat) :=
        roundEven_mul_right _ _ hden

/-! ## Magnitudes are nearest to themselves -/

variable {n : ℕ}

theorem inRange (h : n < infinity) : Double.InRange (significand n) (exponent n) := by
  have hlt : n < 2047 * 0x10000000000000 := h
  have hbinade : binade = 0x10000000000000 := rfl
  unfold significand exponent
  rw [hbinade]
  by_cases hn : n < 0x10000000000000
  · rw [if_pos hn, if_pos hn]
    exact ⟨by omega, le_rfl, by decide, .inl rfl⟩
  · rw [if_neg hn, if_neg hn]
    exact ⟨by omega, by omega, by omega, .inr (by omega)⟩

theorem significand_pos (h : 0 < n) : 0 < significand n := by
  unfold significand
  split_ifs
  · exact h
  · exact Nat.add_pos_left (by decide) _

/-- The number of a magnitude from its significand and exponent. -/
theorem number_eq (n : ℕ) : (exponent n + 1074).toNat * binade + significand n = n := by
  have hbinade : binade = 0x10000000000000 := rfl
  unfold significand exponent
  rw [hbinade]
  by_cases hn : n < 0x10000000000000
  · rw [if_pos hn, if_pos hn]
    omega
  · rw [if_neg hn, if_neg hn]
    have hdiv := Nat.div_add_mod n 0x10000000000000
    have hquotient : ((n : ℤ) / 0x10000000000000 - 1075 + 1074).toNat + 1 =
        n / 0x10000000000000 := by omega
    omega

/-- Magnitudes are exact multiples of the distance to the next. -/
theorem spacing_eq (hpos : 0 < n) (h : n < infinity) :
    spacing (significand n * 2 ^ exponent n) = exponent n := by
  obtain ⟨hlt, hleast, -, hfull⟩ := inRange h
  have hvalue : (0 : ℚ) < significand n * 2 ^ exponent n :=
    mul_pos (Nat.cast_pos.mpr (significand_pos hpos)) (by positivity)
  have hupper : Int.log 2 ((significand n : ℚ) * 2 ^ exponent n) < 53 + exponent n := by
    rw [← Int.lt_zpow_iff_log_lt one_lt_two hvalue, Nat.cast_ofNat, zpow_add₀ two_ne_zero]
    gcongr
    exact_mod_cast hlt
  unfold spacing
  rcases hfull with hsubnormal | hnormal
  · omega
  · have hlower : 52 + exponent n ≤ Int.log 2 ((significand n : ℚ) * 2 ^ exponent n) := by
      rw [← Int.zpow_le_iff_le_log one_lt_two hvalue, Nat.cast_ofNat, zpow_add₀ two_ne_zero]
      gcongr
      exact_mod_cast hnormal
    omega

theorem nearest_self (hden : 0 < den) (hpos : 0 < n) (h : n < infinity)
    (hvalue : (num : ℚ) / den = significand n * 2 ^ exponent n) : nearest num den = n := by
  have hquotient : (0 : ℚ) < (num : ℚ) / den := by
    rw [hvalue]
    exact mul_pos (Nat.cast_pos.mpr (significand_pos hpos)) (by positivity)
  have hnum : 0 < num := by
    rcases Nat.eq_zero_or_pos num with rfl | hnum
    · simp at hquotient
    · exact hnum
  have hsteps : num * 2 ^ (-exponent n).toNat =
      significand n * (den * 2 ^ (exponent n).toNat) := by
    rw [div_eq_iff (by positivity)] at hvalue
    generalize exponent n = e at hvalue ⊢
    have hcast : ((num * 2 ^ (-e).toNat : ℕ) : ℚ) =
        ((significand n * (den * 2 ^ e.toNat) : ℕ) : ℚ) := by
      push_cast
      rw [hvalue]
      rcases Int.le_total 0 e with he | he
      · obtain ⟨k, rfl⟩ := Int.eq_ofNat_of_zero_le he
        simp only [Int.toNat_neg_natCast, Int.toNat_natCast, zpow_natCast, pow_zero, mul_one]
        ring
      · obtain ⟨k, rfl⟩ : ∃ k : ℕ, e = -k := ⟨(-e).toNat, by omega⟩
        simp only [neg_neg, Int.toNat_neg_natCast, Int.toNat_natCast, zpow_neg, zpow_natCast,
          pow_zero, mul_one]
        field_simp
    exact_mod_cast hcast
  rw [nearest_eq hnum hden, hvalue, spacing_eq hpos h, hsteps,
    roundEven_mul_self _ (by positivity), number_eq]
  exact min_eq_right h.le

end Magnitude

namespace Decimal

def value (d : Decimal) : ℚ := d.coefficient * 10 ^ d.exponent

theorem value_eq_quotient (d : Decimal) :
    d.value = ((d.coefficient * 10 ^ d.exponent.toNat : ℕ) : ℚ) /
      ((10 ^ (-d.exponent).toNat : ℕ) : ℚ) := by
  obtain ⟨c, e⟩ := d
  unfold value
  push_cast
  rcases Int.le_total 0 e with he | he
  · obtain ⟨k, rfl⟩ := Int.eq_ofNat_of_zero_le he
    simp
  · obtain ⟨k, rfl⟩ : ∃ k : ℕ, e = -k := ⟨(-e).toNat, by omega⟩
    simp [div_eq_mul_inv]

theorem value_eq_zero_iff (d : Decimal) : d.value = 0 ↔ d.coefficient = 0 := by
  simp [value, zpow_ne_zero]

/-- Only the value of a decimal number decides which double is nearest. -/
theorem magnitude_congr {d d' : Decimal} (h : d.value = d'.value) :
    d.magnitude = d'.magnitude := by
  by_cases hzero : d.coefficient = 0
  · have hzero' : d'.coefficient = 0 := by
      rw [← value_eq_zero_iff, ← h, value_eq_zero_iff]
      exact hzero
    rw [magnitude, magnitude, if_pos hzero, if_pos hzero']
  · have hzero' : d'.coefficient ≠ 0 := by
      rw [ne_eq, ← value_eq_zero_iff, ← h, value_eq_zero_iff]
      exact hzero
    have hpos := Nat.pos_of_ne_zero hzero
    have hpos' := Nat.pos_of_ne_zero hzero'
    rw [magnitude_eq_nearest d hzero, magnitude_eq_nearest d' hzero']
    refine Magnitude.nearest_congr (by positivity) (by positivity) (by positivity) (by positivity) ?_
    rw [← value_eq_quotient, ← value_eq_quotient, h]

variable {n : ℕ}

theorem value_exact (n : ℕ) :
    (exact n).value = Magnitude.significand n * 2 ^ Magnitude.exponent n := by
  unfold exact value
  dsimp only
  generalize Magnitude.exponent n = e
  split_ifs with he
  · obtain ⟨k, rfl⟩ := Int.eq_ofNat_of_zero_le he
    simp
  · obtain ⟨k, rfl⟩ : ∃ k : ℕ, e = -k := ⟨(-e).toNat, by omega⟩
    have hten : (10 : ℚ) ^ k = 2 ^ k * 5 ^ k := by rw [← mul_pow]; norm_num
    simp only [neg_neg, Int.toNat_natCast, Nat.pow_eq, zpow_neg, zpow_natCast]
    push_cast
    rw [hten]
    field_simp

/-- The exact expansion of a finite magnitude reads back as that magnitude. -/
theorem magnitude_exact (h : n < Magnitude.infinity) : (exact n).magnitude = n := by
  rcases Nat.eq_zero_or_pos n with rfl | hpos
  · decide +kernel
  · have hvalue := value_exact n
    have hne : (exact n).coefficient ≠ 0 := by
      rw [ne_eq, ← value_eq_zero_iff, hvalue]
      have := Magnitude.significand_pos hpos
      positivity
    rw [magnitude_eq_nearest _ hne]
    refine Magnitude.nearest_self (by positivity) hpos h ?_
    rw [← hvalue, value_eq_quotient]

end Decimal

end DenseSystem
