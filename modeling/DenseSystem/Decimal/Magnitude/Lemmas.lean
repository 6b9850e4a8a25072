import Mathlib
import DenseSystem.Decimal.Magnitude

/-! # Nearest magnitudes at the ends of the range

A quotient of at least 2 ^ 1024 is nearest to infinity and one below 2 ^ -1076 to zero. Hence the
shortcuts of `Decimal.magnitude` change nothing: it is the nearest magnitude for every decimal
number but zero, which is its own.
-/
namespace DenseSystem

theorem div_le_roundEven (num den : Nat) : num / den ≤ roundEven num den := by
  unfold roundEven
  dsimp only
  split <;> omega

theorem roundEven_eq_zero {num den : Nat} (h : 2 * num < den) : roundEven num den = 0 := by
  have hlt : num < den := by omega
  simp [roundEven, Nat.div_eq_of_lt hlt, Nat.mod_eq_of_lt hlt, Nat.compare_eq_lt.2 h]

namespace Magnitude

private theorem infinity_le_steps {num den t : Nat} (hden : 0 < den) (ht : 1024 ≤ t)
    (h : den * 2 ^ t ≤ num) :
    infinity ≤ (max ((t : Int) - 52) (-1074) + 1074).toNat * binade +
      roundEven (num * Nat.pow 2 (-(max ((t : Int) - 52) (-1074))).toNat)
        (den * Nat.pow 2 (max ((t : Int) - 52) (-1074)).toNat) := by
  have hmax : max ((t : Int) - 52) (-1074) = ((t - 52 : Nat) : Int) := by omega
  rw [hmax]
  have hneg : (-((t - 52 : Nat) : Int)).toNat = 0 := by omega
  have hsum : (((t - 52 : Nat) : Int) + 1074).toNat = t - 52 + 1074 := by omega
  rw [hneg, hsum, Int.toNat_natCast]
  have hunit : 0 < den * 2 ^ (t - 52) := Nat.mul_pos hden (Nat.two_pow_pos _)
  have hsteps : binade ≤ num / (den * 2 ^ (t - 52)) := by
    rw [Nat.le_div_iff_mul_le hunit]
    calc binade * (den * 2 ^ (t - 52)) = den * 2 ^ t := by
          rw [show binade = 2 ^ 52 from by norm_num [binade], Nat.mul_left_comm, ← pow_add]
          congr 2
          omega
      _ ≤ num := h
  have hround := div_le_roundEven (num * Nat.pow 2 0) (den * Nat.pow 2 (t - 52))
  simp only [Nat.pow_eq, pow_zero, mul_one] at hround ⊢
  simp only [infinity, binade] at hsteps ⊢
  omega

theorem nearest_eq_infinity {num den k : Nat} (hk : 1024 ≤ k) (hden : 0 < den)
    (h : den * 2 ^ k ≤ num) : nearest num den = infinity := by
  have hnum : num ≠ 0 := by
    rintro rfl
    have := Nat.mul_pos hden (Nat.two_pow_pos k)
    omega
  have hlog : den.log2 + k ≤ num.log2 := by
    rw [Nat.le_log2 hnum, pow_add]
    exact le_trans (Nat.mul_le_mul_right _ (Nat.log2_self_le hden.ne')) h
  obtain ⟨g, hg⟩ : ∃ g, num.log2 = den.log2 + g := ⟨_, (Nat.add_sub_cancel' (by omega)).symm⟩
  have hguess : (num.log2 : Int) - den.log2 = (g : Int) := by omega
  unfold nearest
  simp only [hguess]
  have hneg : (-(g : Int)).toNat = 0 := by omega
  rw [hneg, Int.toNat_natCast]
  simp only [Nat.pow_eq, pow_zero, mul_one]
  apply min_eq_left
  split
  · next hlt =>
    have hne : g ≠ k := by
      rintro rfl
      omega
    have hcast : (g : Int) - 1 = ((g - 1 : Nat) : Int) := by omega
    rw [hcast]
    refine infinity_le_steps hden (by omega) ?_
    calc den * 2 ^ (g - 1) ≤ 2 ^ (den.log2 + 1) * 2 ^ (g - 1) :=
          Nat.mul_le_mul_right _ Nat.lt_log2_self.le
      _ = 2 ^ num.log2 := by rw [← pow_add]; congr 1; omega
      _ ≤ num := Nat.log2_self_le hnum
  · next hge => exact infinity_le_steps hden (by omega) (by omega)

theorem nearest_eq_zero {num den k : Nat} (hk : 1076 ≤ k) (hnum : 0 < num)
    (h : num * 2 ^ k < den) : nearest num den = 0 := by
  have hden : den ≠ 0 := by omega
  have hlog : num.log2 + k ≤ den.log2 := by
    rw [Nat.le_log2 hden, pow_add]
    exact le_trans (Nat.mul_le_mul_right _ (Nat.log2_self_le hnum.ne')) h.le
  have hmax : ∀ t : Int, t ≤ (num.log2 : Int) - den.log2 → max (t - 52) (-1074) = -1074 := by
    intro t ht
    omega
  have hzero : (-1074 : Int).toNat = 0 := rfl
  obtain ⟨s, hs, hsk⟩ : ∃ s, (-(-1074 : Int)).toNat = s ∧ s + 2 ≤ k := ⟨_, rfl, hk⟩
  have hstep : roundEven (num * Nat.pow 2 (-(-1074 : Int)).toNat)
      (den * Nat.pow 2 (-1074 : Int).toNat) = 0 := by
    rw [hs, hzero]
    apply roundEven_eq_zero
    simp only [Nat.pow_eq, pow_zero, mul_one]
    calc 2 * (num * 2 ^ s) = num * 2 ^ (s + 1) := by ring
      _ ≤ num * 2 ^ k := Nat.mul_le_mul_left _ (Nat.pow_le_pow_right two_pos (by omega))
      _ < den := h
  unfold nearest
  dsimp only
  split
  · rw [hmax _ (by omega), hstep]; rfl
  · rw [hmax _ (by omega), hstep]; rfl

end Magnitude

namespace Decimal

theorem magnitude_eq_nearest (d : Decimal) (h : d.coefficient ≠ 0) :
    d.magnitude = Magnitude.nearest (d.coefficient * 10 ^ d.exponent.toNat)
      (10 ^ (-d.exponent).toNat) := by
  obtain ⟨c, e⟩ := d
  simp only at h
  have hself := Nat.log2_self_le h
  have hlt : c < 2 ^ (c.log2 + 1) := Nat.lt_log2_self
  simp only [magnitude, h, if_false, Nat.pow_eq]
  split
  · next hbig =>
    have he : (-e).toNat = 0 := by omega
    rw [he, pow_zero]
    symm
    apply Magnitude.nearest_eq_infinity (k := c.log2 + 3 * e.toNat) (by omega) one_pos
    calc 1 * 2 ^ (c.log2 + 3 * e.toNat) = 2 ^ c.log2 * 8 ^ e.toNat := by
          rw [one_mul, pow_add, pow_mul]; norm_num
      _ ≤ c * 10 ^ e.toNat := Nat.mul_le_mul hself (Nat.pow_le_pow_left (by norm_num) _)
  · split
    · next hsmall =>
      have he : e.toNat = 0 := by omega
      rw [he, pow_zero, mul_one]
      symm
      apply Magnitude.nearest_eq_zero (k := 3 * (-e).toNat - (c.log2 + 1)) (by omega)
        (Nat.pos_of_ne_zero h)
      calc c * 2 ^ (3 * (-e).toNat - (c.log2 + 1))
          < 2 ^ (c.log2 + 1) * 2 ^ (3 * (-e).toNat - (c.log2 + 1)) :=
            Nat.mul_lt_mul_of_pos_right hlt (Nat.two_pow_pos _)
        _ = 2 ^ (3 * (-e).toNat) := by rw [← pow_add]; congr 1; omega
        _ = 8 ^ (-e).toNat := by rw [pow_mul]; norm_num
        _ ≤ 10 ^ (-e).toNat := Nat.pow_le_pow_left (by norm_num) _
    · rfl

end Decimal

end DenseSystem
