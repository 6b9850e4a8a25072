import DenseSystem.Decimal.Magnitude

/-! # Shortest decimal numbers

A double is printed with the fewest digits that read back as itself. Digits are cut off the end of
its exact expansion, as many as possible first: with a given number of digits only the two decimal
numbers next to the exact value need to be tried.
-/
namespace DenseSystem.Decimal

/-- The candidate with `cut` digits less than the exact expansion that reads back as magnitude `n`:
the one below or the one above the exact value. If both do, the nearer, and the upper one if the
exact value is halfway. -/
def shortened? (n : Nat) (exact : Decimal) (cut : Nat) : Option Decimal :=
  let unit := Nat.pow 10 cut
  let below : Decimal := ⟨exact.coefficient / unit, exact.exponent + cut⟩
  let above : Decimal := ⟨exact.coefficient / unit + 1, exact.exponent + cut⟩
  match below.magnitude == n, above.magnitude == n with
  | true, true => if 2 * (exact.coefficient % unit) < unit then some below else some above
  | true, false => some below
  | false, true => some above
  | false, false => none

/-- The first success when fewer and fewer digits are cut; with none cut, the exact expansion. -/
def shortestFrom (n : Nat) (exact : Decimal) : Nat → Decimal
  | 0 => exact
  | cut + 1 => (shortened? n exact (cut + 1)).getD (shortestFrom n exact cut)

/-- A decimal number with the fewest digits that reads back as magnitude `n`. -/
def shortest (n : Nat) : Decimal :=
  let exact := exact n
  shortestFrom n exact (exact.digits.length - 1)

end DenseSystem.Decimal
