import DenseSystem.Scalar

/-! # Documents

Values as they travel between programs: scalars, lists, and records with named fields. Whole numbers
and other numbers are told apart, so that a count is never read from a fraction.
-/
namespace DenseSystem

inductive Document where
  | null
  | bool (value : Bool)
  | integer (value : Int)
  | real (value : Float)
  | text (value : String)
  | list (items : List Document)
  | record (fields : List (String × Document))

namespace Document

def count (n : Nat) : Document := .integer n

/-- A number; documents have none that is infinite or NaN, and null stands for those. -/
def number (x : Float) : Document := if x.isFinite then .real x else .null

def numbers (xs : List Float) : Document := .list (xs.map number)

def optional {α : Type} (encode : α → Document) : Option α → Document
  | some a => encode a
  | none => .null

def bool? : Document → Option Bool
  | .bool value => some value
  | _ => none

/-- A whole number from zero to below 2 ^ 64. -/
def count? : Document → Option Nat
  | .integer n => if 0 ≤ n ∧ n < UInt64.size then some n.toNat else none
  | _ => none

def number? : Document → Option Float
  | .integer n => some (Float.ofInt n)
  | .real x => some x
  | _ => none

def numbers? : Document → Option (List Float)
  | .list items => items.mapM number?
  | _ => none

/-- One of some named values, written as its name or as a record of that name with no content. -/
def choice? {α : Type} (name : α → String) (values : List α) : Document → Option α
  | .text s | .record [(s, .null)] => values.find? (name · == s)
  | _ => none

end Document

end DenseSystem
