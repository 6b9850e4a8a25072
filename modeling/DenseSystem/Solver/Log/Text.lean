import DenseSystem.Solver.Log
import DenseSystem.Decimal.Layout

/-! # Told events

Each event of the log in one sentence.
-/
namespace DenseSystem.Event

/-- A quantity of which the order of magnitude matters. -/
def scientific (x : Float) : String := Decimal.Layout.scientific.text x

def text : Event Float → String
  | solving method rows cols => s!"{method.name}: solving {rows}x{cols} system"
  | classified c =>
    s!"classified {c.unknowns}-unknown system: rank(A) = {c.rankCoefficients}, " ++
      s!"rank(A|b) = {c.rankAugmented} => {c.status.text}"
  | pivotRefused column value =>
    s!"column {column}: best pivot {scientific value} is below tolerance"
  | pivotTaken column row value =>
    s!"column {column}: pivot {Decimal.Layout.plain.text value} from row {row}"
  | solved method maxResidual =>
    s!"{method.name}: solved, max residual {scientific maxResidual}"
  | stopped method status => s!"{method.name}: {status.text}"
  | failed method error => s!"{method.name}: failed: {error.message}"
  | contradicted method error =>
    s!"{method.name}: rank test reported a unique solution but elimination failed: " ++
      error.message

end DenseSystem.Event
