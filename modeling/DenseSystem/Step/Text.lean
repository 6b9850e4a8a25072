import DenseSystem.Step
import DenseSystem.DenseMatrix.Printed

/-! # Told steps

Each step of an attempt in one sentence, with the matrix below it where there is one.
-/
namespace DenseSystem

def Stage.text : Stage → String
  | initial => "initial"
  | afterColumn column => s!"after column {column}"

namespace Step

def number (x : Float) : String := Decimal.Layout.plain.text x

def list (xs : List Float) : String :=
  "[" ++ ", ".intercalate (xs.map Decimal.Layout.listed.text) ++ "]"

def text : Step Float → String
  | classified c =>
    s!"rank(A) = {c.rankCoefficients}, rank(A|b) = {c.rankAugmented}, n = {c.unknowns}: " ++
      c.status.text
  | determinant value => s!"det(A) = {number value}"
  | pivotSelected column row value => s!"pivot for column {column}: row {row} ({number value})"
  | rowsSwapped first second => s!"swap rows {first} and {second}"
  | rowNormalized row pivot => s!"row {row} /= {number pivot}"
  | rowEliminated target pivotRow _ factor =>
    s!"row {target} -= {number factor} * row {pivotRow}"
  | snapshot stage matrix => s!"{stage.text}:\n{matrix.printed}"
  | inverse matrix => s!"inverse:\n{matrix.printed}"
  | backSubstituted index value => s!"x[{index}] = {number value}"
  | solutionExtracted solution => s!"solution: {list solution}"
  | residual row lhs rhs error =>
    s!"equation {row}: |{number lhs} - {number rhs}| = {number error}"
  | failed message => s!"failed: {message}"

end Step

def Trace.text (t : Trace Float) : String := "\n".intercalate (t.steps.map Step.text)

end DenseSystem
