import DenseSystem.Determinant
import DenseSystem.Inverse
import DenseSystem.Residual
import DenseSystem.Method

/-! # Strategies

Each method first makes sure that the system is well formed, finite and uniquely solvable, and then
derives a candidate for the solution.
-/
namespace DenseSystem

/-- What a strategy finds: that there is no single solution, or a vector yet to be checked. -/
inductive Finding (α : Type) where
  | stopped (status : Status)
  | candidate (x : List α)

namespace DenseMatrix

variable {α : Type} [Scalar α]

def checkFinite (m : DenseMatrix α) : Except Error Unit :=
  if m.isFinite then .ok () else .error (.nonFinite .input)

/-- Accepts finite augmented matrices only. -/
def validate (system : DenseMatrix α) : Except Error Unit := do
  system.checkAugmented
  system.checkFinite

def classified (system : DenseMatrix α) : Derivation α Classification := do
  let c ← .ofExcept (classify system)
  .record (.classified c)
  return c

/-- The unknowns of the equations from row `i` on, `left` of them, of a matrix with ones on and
zeros below the diagonal: each is its right-hand side less what the later ones contribute. -/
def backSubstitute (work : DenseMatrix α) (i : Nat) : Nat → List α
  | 0 => []
  | left + 1 =>
    let later := work.backSubstitute (i + 1) left
    let row := (List.range' (i + 1) left).map (work.entry i)
    (work.entry i work.rows - sum (List.zipWith (· * ·) row later)) :: later

/-- The record of a back substitution, which goes from the last unknown to the first. -/
def substitutions (x : List α) : List (Step α) :=
  (x.zipIdx.map fun (value, i) => Step.backSubstituted i value).reverse

/-- Elimination of a uniquely solvable system, and the vector read off the reduced matrix. -/
def eliminate (system : DenseMatrix α) (sweep : Sweep)
    (extract : DenseMatrix α → Derivation α (List α)) : Derivation α (Finding α) := do
  .ofExcept system.validate
  let c ← system.classified
  if c.status = .unique then
    .record (.snapshot .initial system)
    let work ← system.reduce sweep
    return .candidate (← extract work)
  else return .stopped c.status

/-- Elimination below the pivots, then back substitution. -/
def gauss (system : DenseMatrix α) : Derivation α (Finding α) :=
  system.eliminate .below fun work => do
    let x := work.backSubstitute 0 work.rows
    .recordAll (substitutions x)
    return x

/-- Elimination in all other rows, which leaves the solution in the last column. -/
def gaussJordan (system : DenseMatrix α) : Derivation α (Finding α) :=
  system.eliminate .all fun work => .ofExcept (work.column work.rows)

/-- The inverse of the coefficients times the right-hand side, unless their determinant is near
zero. -/
def inverseMatrix (system : DenseMatrix α) : Derivation α (Finding α) := do
  .ofExcept system.validate
  let a ← .ofExcept system.coefficients
  let b ← .ofExcept system.rhs
  let det ← .ofExcept a.determinant
  .record (.determinant det)
  let c ← system.classified
  if isNearZero det then .fail .singularMatrix
  else if c.status = .unique then
    let inverse ← a.invert
    return .candidate (← .ofExcept (inverse.multiply b))
  else return .stopped c.status

def strategy (system : DenseMatrix α) : Method → Derivation α (Finding α)
  | .gauss => system.gauss
  | .gaussJordan => system.gaussJordan
  | .inverseMatrix => system.inverseMatrix

end DenseMatrix

end DenseSystem
