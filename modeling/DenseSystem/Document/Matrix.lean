import DenseSystem.Document.Basic
import DenseSystem.DenseMatrix.Basic

/-! # Matrices as documents

A matrix is a record of its entries row by row and its dimensions. Reading checks that they fit.
-/
namespace DenseSystem

inductive Refusal where
  | malformed
  /-- It has the right form, but its contents are not acceptable. -/
  | rejected (error : Error)

namespace DenseMatrix

def toDocument (m : DenseMatrix Float) : Document :=
  .record [("data", .numbers m.data.toList), ("rows", .count m.rows), ("cols", .count m.cols)]

/-- The entries and dimensions in a document: a record with at least these fields, or a list of
exactly these three. -/
def parts? : Document → Option (List Float × Nat × Nat)
  | .record fields => do
    let data ← (← fields.lookup "data").numbers?
    let rows ← (← fields.lookup "rows").count?
    let cols ← (← fields.lookup "cols").count?
    return (data, rows, cols)
  | .list [data, rows, cols] => do
    return (← data.numbers?, ← rows.count?, ← cols.count?)
  | _ => none

def ofDocument (d : Document) : Except Refusal (DenseMatrix Float) :=
  match parts? d with
  | none => .error .malformed
  | some (data, rows, cols) => (ofArray data.toArray rows cols).mapError .rejected

end DenseMatrix

end DenseSystem
