import DenseSystem.Decimal.Magnitude

/-! # Numerals

What is read as a number: digits with an optional point, sign and exponent, or the name of an
infinity or of NaN in letters of either case.
-/
namespace DenseSystem.Decimal

/-- A sign in front, and whether it is a minus. -/
def splitSign : List Char → Bool × List Char
  | '-' :: rest => (true, rest)
  | '+' :: rest => (false, rest)
  | cs => (false, cs)

/-- At least one decimal digit and nothing else. -/
def natural? (cs : List Char) : Option Nat :=
  if !cs.isEmpty && cs.all Char.isDigit then some (Nat.ofDigitChars 10 cs 0) else none

/-- The value of the digits of an exponent. Those after it has reached 65536 are not counted: with any
such exponent, a numeral of fewer than 65000 digits is zero or infinite anyway. -/
def exponentValue (digits : List Char) : Nat :=
  digits.foldl (fun n c => if n < 65536 then 10 * n + (c.toNat - '0'.toNat) else n) 0

/-- Nothing, or an exponent mark and a whole number. -/
def exponent? : List Char → Option Int
  | [] => some 0
  | mark :: rest =>
    if mark = 'e' ∨ mark = 'E' then
      let (negative, digits) := splitSign rest
      if !digits.isEmpty && digits.all Char.isDigit then
        let n : Int := exponentValue digits
        some (if negative then -n else n)
      else none
    else none

/-- Digits in front of the point, behind it or both, and an exponent. -/
def unsigned? (cs : List Char) : Option Decimal :=
  let whole := cs.takeWhile Char.isDigit
  let (fraction, rest) := match cs.dropWhile Char.isDigit with
    | '.' :: rest => (rest.takeWhile Char.isDigit, rest.dropWhile Char.isDigit)
    | rest => ([], rest)
  match natural? (whole ++ fraction), exponent? rest with
  | some coefficient, some e => some ⟨coefficient, e - fraction.length⟩
  | _, _ => none

/-- The double that a numeral denotes, rounded to nearest. -/
def float? (cs : List Char) : Option Float :=
  let (negative, body) := splitSign cs
  let name := body.map Char.toLower
  if name = ['i', 'n', 'f'] ∨ name = ['i', 'n', 'f', 'i', 'n', 'i', 't', 'y'] then
    some (Magnitude.toFloat negative Magnitude.infinity)
  else if name = ['n', 'a', 'n'] then some (0.0 / 0.0)
  else (unsigned? body).map fun d => Magnitude.toFloat negative d.magnitude

/-- A whole number below 2 ^ 64, which a plus sign may precede. -/
def word? (cs : List Char) : Option Nat :=
  let digits := match cs with
    | '+' :: rest => rest
    | cs => cs
  (natural? digits).filter (· < UInt64.size)

end DenseSystem.Decimal
