/-! # Decimal numbers

A decimal number is a whole coefficient times a power of ten. One number has many such forms; the
digits of a form are those of its coefficient.
-/
namespace DenseSystem

structure Decimal where
  coefficient : Nat
  exponent : Int
deriving DecidableEq

namespace Decimal

def digits (d : Decimal) : List Char := Nat.toDigits 10 d.coefficient

/-- The power of ten that the first digit counts. -/
def leading (d : Decimal) : Int := d.exponent + d.digits.length - 1

/-- The digits without the zeros at their end, which the leading power makes superfluous. A
coefficient of zero has no digit left. -/
def significant (d : Decimal) : List Char := (d.digits.reverse.dropWhile (· == '0')).reverse

end Decimal

/-- A quotient rounded to the nearest whole number, a half to the even neighbour. -/
def roundEven (num den : Nat) : Nat :=
  let quotient := num / den
  match compare (2 * (num % den)) den with
  | .lt => quotient
  | .eq => quotient + quotient % 2
  | .gt => quotient + 1

end DenseSystem
