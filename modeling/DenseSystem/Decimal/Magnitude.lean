import DenseSystem.Decimal.Basic

/-! # Doubles in order of magnitude

The magnitudes of the doubles are numbered from zero upwards, and their bits without the sign are
that number. Below 2 ^ 52 lie the subnormal magnitudes, all multiples of 2 ^ -1074; every further
2 ^ 52 doubles are twice as far apart as those before them. Infinity follows the largest finite one.
-/
namespace DenseSystem

namespace Magnitude

/-- How many doubles in a row have the same distance to the next, 2 ^ 52. -/
abbrev binade : Nat := 0x10000000000000

/-- The sign bit, 2 ^ 63, which is above every magnitude. -/
abbrev signBit : Nat := 0x8000000000000000

/-- The number of infinity; smaller ones are finite. -/
abbrev infinity : Nat := 2047 * binade

/-- The number of a double's magnitude. -/
def ofFloat (x : Float) : Nat := x.toBits.toNat % signBit

def isNegative (x : Float) : Bool := signBit ≤ x.toBits.toNat

def toFloat (negative : Bool) (n : Nat) : Float :=
  Float.ofBits (UInt64.ofNat (if negative then signBit + n else n))

/-- The `n`th magnitude is its significand times two to the power of its exponent. -/
def significand (n : Nat) : Nat := if n < binade then n else binade + n % binade

def exponent (n : Nat) : Int := if n < binade then -1074 else n / binade - 1075

/-- The number of the magnitude nearest to a positive quotient, of two equally near ones the even. It
is measured in units of the distance between neighbours, which is that of the subnormals
or leaves 53 binary digits. -/
def nearest (num den : Nat) : Nat :=
  let guess : Int := (num.log2 : Int) - den.log2
  let scaled (e : Int) : Nat × Nat :=
    (num * Nat.pow 2 (-e).toNat, den * Nat.pow 2 e.toNat)
  let top := if (scaled guess).1 < (scaled guess).2 then guess - 1 else guess
  let unit := max (top - 52) (-1074)
  let steps := roundEven (scaled unit).1 (scaled unit).2
  min infinity ((unit + 1074).toNat * binade + steps)

end Magnitude

namespace Decimal

/-- The number of the double nearest to a decimal number. The two shortcuts leave huge powers of ten
uncomputed. A positive power of ten is at least that power of eight and a negative one at most, so
in the first case the value is no less than 2 ^ 1024 and in the second less than 2 ^ -1076. -/
def magnitude (d : Decimal) : Nat :=
  if d.coefficient = 0 then 0
  else if 0 ≤ d.exponent ∧ 1024 ≤ d.coefficient.log2 + 3 * d.exponent then Magnitude.infinity
  else if d.exponent < 0 ∧ d.coefficient.log2 + 1 + 3 * d.exponent < -1076 then 0
  else
    Magnitude.nearest (d.coefficient * Nat.pow 10 d.exponent.toNat)
      (Nat.pow 10 (-d.exponent).toNat)

/-- The decimal number equal to a finite magnitude. -/
def exact (n : Nat) : Decimal :=
  let e := Magnitude.exponent n
  if 0 ≤ e then ⟨Magnitude.significand n * Nat.pow 2 e.toNat, 0⟩
  else ⟨Magnitude.significand n * Nat.pow 5 (-e).toNat, e⟩

end Decimal

end DenseSystem
