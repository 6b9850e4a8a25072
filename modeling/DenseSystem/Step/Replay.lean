import DenseSystem.Step

/-! # Replayed steps

The recorded row operations, carried out again in their order on an initial matrix. A replay knows
nothing of the elimination: it gives each entry from the step alone.
-/
namespace DenseSystem

variable {α : Type} [Scalar α]

/-- The working matrix after a step. Steps that only tell of a matrix or a number leave it alone. -/
def Step.replay (work : DenseMatrix α) : Step α → DenseMatrix α
  | snapshot .initial start => start
  | rowsSwapped first second => .ofFn work.rows work.cols fun i j =>
    if i = first then work.entry second j
    else if i = second then work.entry first j
    else work.entry i j
  | rowNormalized row pivot => .ofFn work.rows work.cols fun i j =>
    if i = row ∧ j = row then 1
    else if i = row ∧ row < j then work.entry i j / pivot
    else work.entry i j
  | rowEliminated target pivotRow column factor => .ofFn work.rows work.cols fun i j =>
    if i = target ∧ j = column then 0
    else if i = target ∧ column < j then work.entry i j - factor * work.entry pivotRow j
    else work.entry i j
  | _ => work

def replay (work : DenseMatrix α) (steps : List (Step α)) : DenseMatrix α :=
  steps.foldl Step.replay work

theorem replay_append (work : DenseMatrix α) (first second : List (Step α)) :
    replay work (first ++ second) = replay (replay work first) second :=
  List.foldl_append

end DenseSystem
