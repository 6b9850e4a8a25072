import DenseSystem.Rank

/-! # Classification

A system has a solution exactly when its coefficients and the augmented matrix have the same rank,
and then only one when that rank is the number of unknowns.
-/
namespace DenseSystem

inductive Status where
  | unique
  | infinite
  | none
  /-- The attempt to solve it failed. -/
  | error
deriving DecidableEq

namespace Status

def all : List Status := [unique, infinite, none, error]

def name : Status → String
  | unique => "unique-solution"
  | infinite => "infinite-solutions"
  | none => "no-solution"
  | error => "error"

def text : Status → String
  | unique => "unique solution"
  | infinite => "infinitely many solutions"
  | none => "no solution"
  | error => "error"

end Status

structure Classification where
  rankCoefficients : Nat
  rankAugmented : Nat
  unknowns : Nat
  status : Status
deriving DecidableEq

def Classification.ofRanks (coefficients augmented unknowns : Nat) : Classification where
  rankCoefficients := coefficients
  rankAugmented := augmented
  unknowns := unknowns
  status :=
    if coefficients ≠ augmented then .none
    else if coefficients = unknowns then .unique
    else .infinite

def classify {α : Type} [Scalar α] (system : DenseMatrix α) : Except Error Classification := do
  let coefficients ← system.coefficients
  return .ofRanks coefficients.rank system.rank system.rows

end DenseSystem
