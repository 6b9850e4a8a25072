import DenseSystem.DenseMatrix.Basic
import DenseSystem.Decimal.Layout

/-! # Systems written as text

The number of unknowns on the first line, then one equation a line, its entries separated by tabs
and the right-hand side last. The digits are enough to read every finite entry back.
-/
namespace DenseSystem.Exchange

def write (system : DenseMatrix Float) : Except Error String := do
  system.checkAugmented
  let line (row : List Float) := "\t".intercalate (row.map Decimal.Layout.plain.text) ++ "\n"
  return s!"{system.rows}\n" ++ String.join (system.toRows.map line)

end DenseSystem.Exchange
