import DenseSystem.Exchange.Fault

/-! # Errors

Why an operation has no result, and the sentence that says so. Rows and columns count from zero in
the causes; a zero pivot is reported by the number of its column counted from one.
-/
namespace DenseSystem

inductive ShapeFault where
  /-- The product of the dimensions is not the number of entries. -/
  | dataLength
  | raggedRows
  /-- Not a square matrix with one further column. -/
  | notAugmented
deriving DecidableEq

def ShapeFault.message : ShapeFault → String
  | dataLength => "shape product does not match data length"
  | raggedRows => "rows have different lengths"
  | notAugmented => "expected an augmented n x (n + 1) matrix with n >= 1"

inductive Place where
  | input
  | solution
  | residual
deriving DecidableEq

def Place.name : Place → String
  | input => "input matrix"
  | solution => "solution"
  | residual => "residual"

inductive Error where
  /-- A vector has another length than its partner requires. -/
  | dimensionMismatch (expected got : Nat)
  | notSquare (rows cols : Nat)
  | invalidShape (rows cols : Nat) (fault : ShapeFault)
  | indexOutOfBounds (row col rows cols : Nat)
  /-- No entry of the column can serve as pivot. -/
  | zeroPivot (column : Nat)
  /-- The determinant is near zero. -/
  | singularMatrix
  | nonFinite (place : Place)
  /-- A text is not a system; lines count from one. -/
  | parse (line : Nat) (fault : Exchange.Fault)
  | unknownMethod (name : String)
deriving DecidableEq

def Error.message : Error → String
  | dimensionMismatch expected got => s!"dimension mismatch: expected [{expected}], got [{got}]"
  | notSquare rows cols => s!"matrix must be square, got {rows}x{cols}"
  | invalidShape rows cols fault => s!"invalid shape {rows}x{cols}: {fault.message}"
  | indexOutOfBounds row col rows cols =>
    s!"index ({row}, {col}) out of bounds for a {rows}x{cols} matrix"
  | zeroPivot column => s!"zero pivot in column {column + 1}"
  | singularMatrix => "coefficient matrix is singular"
  | nonFinite place => s!"non-finite value encountered in {place.name}"
  | parse line fault => s!"parse error on line {line}: {fault.message}"
  | unknownMethod name => "invalid argument: unknown solving method " ++ Text.quote name

/-- Whether the matrix itself is singular, as far as the arithmetic can tell. -/
def Error.isDegenerate : Error → Bool
  | zeroPivot _ | singularMatrix => true
  | _ => false

/-- A row or column that the caller had to keep in range and did not. -/
inductive OutOfRange where
  | row (row rows : Nat)
  | swap (first second rows : Nat)
  | pivotSearch (row col rows cols : Nat)
deriving DecidableEq

def OutOfRange.message : OutOfRange → String
  | row i rows => s!"row {i} out of bounds ({rows} rows)"
  | swap first second rows => s!"swap_rows({first}, {second}) out of bounds ({rows} rows)"
  | pivotSearch i j rows cols =>
    s!"pivot search at ({i}, {j}) outside a {rows}x{cols} matrix"

end DenseSystem
