import DenseSystem.Document.Matrix
import DenseSystem.Document.Options
import DenseSystem.Solver.Attempt

/-! # Reports as documents

A step is a record that names its kind; a trace is the list of its steps.
-/
namespace DenseSystem

def Classification.fields (c : Classification) : List (String × Document) :=
  [("rank_coefficients", .count c.rankCoefficients), ("rank_augmented", .count c.rankAugmented),
    ("unknowns", .count c.unknowns), ("status", c.status.toDocument)]

def Classification.toDocument (c : Classification) : Document := .record c.fields

def Stage.toDocument : Stage → Document
  | initial => .text "initial"
  | afterColumn column => .record [("after-column", .count column)]

namespace Step

def fields : Step Float → String × List (String × Document)
  | classified c => ("classified", c.fields)
  | determinant value => ("determinant", [("value", .number value)])
  | pivotSelected column row value =>
    ("pivot-selected", [("column", .count column), ("row", .count row), ("value", .number value)])
  | rowsSwapped first second =>
    ("rows-swapped", [("first", .count first), ("second", .count second)])
  | rowNormalized row pivot => ("row-normalized", [("row", .count row), ("pivot", .number pivot)])
  | rowEliminated target pivotRow column factor =>
    ("row-eliminated",
      [("target", .count target), ("pivot_row", .count pivotRow), ("column", .count column),
        ("factor", .number factor)])
  | snapshot stage matrix =>
    ("snapshot", [("stage", stage.toDocument), ("matrix", matrix.toDocument)])
  | inverse matrix => ("inverse", [("matrix", matrix.toDocument)])
  | backSubstituted index value =>
    ("back-substituted", [("index", .count index), ("value", .number value)])
  | solutionExtracted solution => ("solution-extracted", [("solution", .numbers solution)])
  | residual row lhs rhs error =>
    ("residual",
      [("row", .count row), ("lhs", .number lhs), ("rhs", .number rhs), ("error", .number error)])
  | failed message => ("failed", [("message", .text message)])

def toDocument (step : Step Float) : Document :=
  .record (("kind", .text step.fields.1) :: step.fields.2)

end Step

def Trace.toDocument (t : Trace Float) : Document :=
  .record [("steps", .list (t.steps.map Step.toDocument))]

def Report.toDocument (r : Report Float) : Document :=
  .record
    [("method", r.method.toDocument), ("status", r.status.toDocument),
      ("solution", .optional .numbers r.solution),
      ("max_residual", .optional .number r.maxResidual),
      ("determinant", .optional .number r.determinant), ("error", .optional .text r.error),
      ("trace", .optional Trace.toDocument r.trace)]

end DenseSystem
