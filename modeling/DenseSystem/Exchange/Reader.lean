import DenseSystem.DenseMatrix.Basic
import DenseSystem.Decimal.Numeral
import DenseSystem.Text.Blank

/-! # Systems read from text

Blank lines and blanks around a line do not count, and any blanks separate the entries of an
equation. The first fault in reading order is reported with its line.
-/
namespace DenseSystem.Exchange

/-- The lines that are not blank, without the blanks around them and with their numbers, which count
all lines from one. -/
def content (text : String) : List (Nat × List Char) :=
  ((Text.lines text.toList).zipIdx 1).filterMap fun (line, number) =>
    let line := Text.trim line
    if line.isEmpty then none else some (number, line)

/-- The number of unknowns. The number of entries has to be below 2 ^ 64. -/
def readSize (line : List Char) : Except Fault Nat :=
  match Decimal.word? line with
  | none => .error (.unreadableSize (String.ofList line))
  | some 0 => .error .noUnknowns
  | some n => if n * (n + 1) < UInt64.size then .ok n else .error (.tooManyUnknowns n)

def readCell (word : List Char) : Except Fault Float :=
  match Decimal.float? word with
  | none => .error (.unreadableCell (String.ofList word))
  | some x => if x.isFinite then .ok x else .error (.infiniteCell (String.ofList word))

/-- One equation with `n` unknowns. Its cells are read before they are counted. -/
def readEquation (n : Nat) (line : List Char) : Except Fault (List Float) := do
  let cells ← (Text.words line).mapM readCell
  if cells.length = n + 1 then return cells else .error (.cellCount (n + 1) cells.length)

/-- The `left` equations still missing of `n`, after a line with the number `last`. -/
def readEquations (n last : Nat) :
    Nat → List (Nat × List Char) → Except Error (List (List Float))
  | 0, [] => .ok []
  | 0, (number, _) :: _ => .error (.parse number .excessContent)
  | left + 1, [] => .error (.parse (last + 1) (.missingEquation n (n - (left + 1))))
  | left + 1, (number, line) :: rest =>
    match readEquation n line with
    | .error fault => .error (.parse number fault)
    | .ok row => (row :: ·) <$> readEquations n number left rest

def read (text : String) : Except Error (DenseMatrix Float) :=
  match content text with
  | [] => .error (.parse 1 .missingSize)
  | (number, line) :: rest =>
    match readSize line with
    | .error fault => .error (.parse number fault)
    | .ok n => do
      let rows ← readEquations n number n rest
      DenseMatrix.ofArray rows.flatten.toArray n (n + 1)

end DenseSystem.Exchange
