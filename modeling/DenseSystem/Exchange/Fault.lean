import DenseSystem.Text.Quoted

/-! # Faults of an exchanged text

What can be wrong with a line of a system written as text.
-/
namespace DenseSystem.Exchange

inductive Fault where
  | missingSize
  | unreadableSize (size : String)
  | noUnknowns
  | tooManyUnknowns (unknowns : Nat)
  | missingEquation (unknowns found : Nat)
  | unreadableCell (cell : String)
  | infiniteCell (cell : String)
  | cellCount (expected found : Nat)
  | excessContent
deriving DecidableEq

def Fault.message : Fault → String
  | missingSize => "missing size line"
  | unreadableSize size => "expected the number of unknowns, got " ++ Text.quote size
  | noUnknowns => "number of unknowns must be at least 1"
  | tooManyUnknowns unknowns => s!"{unknowns} unknowns is too many"
  | missingEquation unknowns found => s!"expected {unknowns} equations, found {found}"
  | unreadableCell cell => Text.quote cell ++ " is not a number"
  | infiniteCell cell => Text.quote cell ++ " is not a finite number"
  | cellCount expected found => s!"expected {expected} values, found {found}"
  | excessContent => "unexpected content after the last equation"

end DenseSystem.Exchange
