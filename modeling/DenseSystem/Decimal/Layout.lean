import DenseSystem.Decimal.Shortest

/-! # Written doubles

Where digits stand in the text of a double: positional or with an exponent, and with how many
places after the point.
-/
namespace DenseSystem.Decimal

structure Layout where
  /-- Whether a number whose first digit counts this power of ten is written without exponent. -/
  positional : Int → Bool
  /-- Whether a whole number written without exponent ends in a point and a zero. -/
  pointZero : Bool

/-- Cells of matrices and numbers in sentences: always positional, whole numbers without a point. -/
def Layout.plain : Layout := ⟨fun _ => true, false⟩

/-- Entries of a bracketed list: positional from 10 ^ -4 to below 10 ^ 16, always with a point or an
exponent. -/
def Layout.listed : Layout := ⟨fun e => -4 ≤ e && e < 16, true⟩

/-- Always one digit in front of the point, and an exponent. -/
def Layout.scientific : Layout := ⟨fun _ => false, false⟩

/-- Digits of which the first counts ten to the power `leading`, without exponent. -/
def Layout.withoutExponent (l : Layout) (digits : List Char) (leading : Int) : List Char :=
  if leading < 0 then
    ['0', '.'] ++ List.replicate (-leading - 1).toNat '0' ++ digits
  else
    let width := leading.toNat + 1
    let whole := digits.take width ++ List.replicate (width - digits.length) '0'
    match digits.drop width with
    | [] => whole ++ if l.pointZero then ['.', '0'] else []
    | fraction => whole ++ '.' :: fraction

/-- Digits of which the first counts ten to the power `leading`, with that exponent. -/
def Layout.withExponent (digits : List Char) (leading : Int) : List Char :=
  let mantissa := match digits with
    | first :: second :: rest => first :: '.' :: second :: rest
    | short => short
  mantissa ++ ['e'] ++ (if leading < 0 then ['-'] else []) ++ Nat.toDigits 10 leading.natAbs

def Layout.write (l : Layout) (digits : List Char) (leading : Int) : List Char :=
  if l.positional leading then l.withoutExponent digits leading
  else Layout.withExponent digits leading

/-- The shortest digits of a magnitude; zero is one digit. -/
def Layout.magnitude (l : Layout) (n : Nat) : List Char :=
  if n = 0 then l.write ['0'] 0
  else
    let d := shortest n
    l.write d.significant d.leading

/-- The text of a double: its sign, also that of zero, and its magnitude. NaN has no sign. -/
def signed (x : Float) (magnitude : Nat → List Char) : String :=
  if x.isNaN then "NaN"
  else
    let n := Magnitude.ofFloat x
    let body := if n = Magnitude.infinity then ['i', 'n', 'f'] else magnitude n
    String.ofList (if Magnitude.isNegative x then '-' :: body else body)

def Layout.text (l : Layout) (x : Float) : String := signed x l.magnitude

example : Layout.plain.text 0.1 = "0.1" := by decide +kernel

example : Layout.plain.text (-0.0) = "-0" := by decide +kernel

example : Layout.listed.text 3 = "3.0" := by decide +kernel

example : Layout.listed.text 1e16 = "1e16" := by decide +kernel

example : Layout.scientific.text 0.8 = "8e-1" := by decide +kernel

/-- Halfway between two numbers of seventeen digits, of which the upper is taken. -/
example : Layout.scientific.text (1 / 33554432) = "2.9802322387695313e-8" := by decide +kernel

/-- The exact value rounded to a fixed number of places, a half to the even digit. -/
def roundedMagnitude (places n : Nat) : List Char :=
  let exact := exact n
  let shift := exact.exponent + places
  let units := roundEven (exact.coefficient * Nat.pow 10 shift.toNat) (Nat.pow 10 (-shift).toNat)
  let whole := Nat.toDigits 10 (units / Nat.pow 10 places)
  if places = 0 then whole
  else
    let fraction := Nat.toDigits 10 (units % Nat.pow 10 places)
    whole ++ ['.'] ++ List.replicate (places - fraction.length) '0' ++ fraction

def rounded (places : Nat) (x : Float) : String := signed x (roundedMagnitude places)

example : rounded 2 0.125 = "0.12" := by decide +kernel

example : rounded 2 (-0.001) = "-0.00" := by decide +kernel

end DenseSystem.Decimal
