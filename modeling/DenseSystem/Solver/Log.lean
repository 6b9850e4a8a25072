import DenseSystem.Solver.Attempt

/-! # Log

What an observer is told while a system is solved: which system, what its ranks say, each search
for a pivot, and how it ended. An elimination without pivot in a system whose ranks promise a
solution is worth a warning.
-/
namespace DenseSystem

inductive Level where
  | trace
  | debug
  | warn
deriving DecidableEq

def Level.name : Level → String
  | trace => "TRACE"
  | debug => "DEBUG"
  | warn => "WARN"

inductive Event (α : Type) where
  | solving (method : Method) (rows cols : Nat)
  | classified (classification : Classification)
  | pivotRefused (column : Nat) (value : α)
  | pivotTaken (column row : Nat) (value : α)
  | solved (method : Method) (maxResidual : α)
  | stopped (method : Method) (status : Status)
  | failed (method : Method) (error : Error)
  /-- No pivot was found although the ranks promised a single solution. -/
  | contradicted (method : Method) (error : Error)

namespace Event

variable {α : Type}

def level : Event α → Level
  | pivotRefused .. | pivotTaken .. => .trace
  | contradicted .. => .warn
  | _ => .debug

variable [Scalar α]

/-- Classifications and searches for a pivot are told as they are recorded. -/
def ofStep? : Step α → Option (Event α)
  | .classified c => some (classified c)
  | .pivotSelected column row value =>
    some (if isNearZero value then pivotRefused column value else pivotTaken column row value)
  | _ => none

def ending (method : Method) (d : Derivation α (Verdict α)) : Event α :=
  match d.outcome with
  | .ok (.solved _ maxResidual) => solved method maxResidual
  | .ok (.stopped status) => stopped method status
  | .error e =>
    let ranks := d.steps.findSome? Step.classification?
    if e.isDegenerate && ranks.any (·.status = .unique) then contradicted method e
    else failed method e

end Event

def solveLog {α : Type} [Scalar α] (system : DenseMatrix α) (method : Method) : List (Event α) :=
  let d := system.attempt method
  .solving method system.rows system.cols ::
    (d.steps.filterMap Event.ofStep? ++ [Event.ending method d])

end DenseSystem
