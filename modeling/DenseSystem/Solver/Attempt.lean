import DenseSystem.Solver.Strategy

/-! # Attempts

A candidate is a solution once it is finite and so is its residual in every equation of the system
as it was given. Every failure closes the record of the attempt.
-/
namespace DenseSystem

inductive Verdict (α : Type) where
  | stopped (status : Status)
  | solved (x : List α) (maxResidual : α)

variable {α : Type} [Scalar α]

namespace DenseMatrix

/-- Records the residuals of the equations from row `row` on, and returns the largest magnitude
among them and `worst`. -/
def checkResiduals (system : DenseMatrix α) (row : Nat) (worst : α) :
    List α → Derivation α α
  | [] => return worst
  | r :: rest => do
    let error := Scalar.abs r
    if Scalar.isFinite error then
      let rhs := system.entry row system.rows
      .record (.residual row (rhs + r) rhs error)
      system.checkResiduals (row + 1) (if Scalar.lt worst error then error else worst) rest
    else .fail (.nonFinite .residual)

/-- Checks a candidate and returns its largest residual. -/
def check (system : DenseMatrix α) (x : List α) : Derivation α α := do
  if x.all Scalar.isFinite then
    .record (.solutionExtracted x)
    let residuals ← .ofExcept (system.residuals x)
    system.checkResiduals 0 0 residuals
  else .fail (.nonFinite .solution)

def verdict (system : DenseMatrix α) : Finding α → Derivation α (Verdict α)
  | .stopped status => return .stopped status
  | .candidate x => return .solved x (← system.check x)

/-- The whole attempt by one method, with a last step that tells the failure if it fails. -/
def attempt (system : DenseMatrix α) (method : Method) : Derivation α (Verdict α) :=
  let d := system.strategy method >>= system.verdict
  match d.outcome with
  | .ok _ => d
  | .error e => ⟨d.steps ++ [.failed e.message], .error e⟩

end DenseMatrix

structure Report (α : Type) where
  method : Method
  status : Status
  solution : Option (List α) := none
  maxResidual : Option α := none
  determinant : Option α := none
  error : Option String := none
  trace : Option (Trace α) := none

namespace Report

/-- A solution and its residual come with a unique solution only, an error text with an error only,
a determinant whenever it was computed, and the steps if they are wanted. -/
def ofDerivation (method : Method) (traced : Bool) (d : Derivation α (Verdict α)) : Report α :=
  let common : Report α :=
    { method := method
      status := .error
      determinant := d.steps.findSome? Step.determinant?
      trace := if traced then some ⟨true, d.steps⟩ else none }
  match d.outcome with
  | .ok (.solved x maxResidual) =>
    { common with status := .unique, solution := some x, maxResidual := some maxResidual }
  | .ok (.stopped status) => { common with status := status }
  | .error e => { common with error := some e.message }

end Report

def solve (system : DenseMatrix α) (method : Method) (traced : Bool) : Report α :=
  .ofDerivation method traced (system.attempt method)

end DenseSystem
