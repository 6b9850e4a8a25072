import DenseSystem.DenseMatrix.Basic
import DenseSystem.Decimal.Layout

/-! # Printed matrices

A matrix is printed as a bracketed list of rows, one to a line, and an empty one by its shape.
-/
namespace DenseSystem.DenseMatrix

def printedRow (cell : Float → String) (row : List Float) : String :=
  "  [" ++ ", ".intercalate (row.map cell) ++ "]"

def printedWith (cell : Float → String) (m : DenseMatrix Float) : String :=
  if m.isEmpty then s!"matrix([], shape=({m.rows}, {m.cols}))"
  else "matrix([\n" ++ ",\n".intercalate (m.toRows.map (printedRow cell)) ++ "\n])"

def printed (m : DenseMatrix Float) : String := m.printedWith Decimal.Layout.plain.text

def printedRounded (places : Nat) (m : DenseMatrix Float) : String :=
  m.printedWith (Decimal.rounded places)

end DenseSystem.DenseMatrix
