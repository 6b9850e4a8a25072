import DenseSystem.Text.Blank
import DenseSystem.Error

/-! # Methods

The three ways to solve a system, and the names by which they can be asked for.
-/
namespace DenseSystem

inductive Method where
  | gauss
  | gaussJordan
  | inverseMatrix
deriving DecidableEq

namespace Method

def all : List Method := [gauss, gaussJordan, inverseMatrix]

def name : Method → String
  | gauss => "gauss"
  | gaussJordan => "gauss-jordan"
  | inverseMatrix => "inverse-matrix"

/-- All spellings that are understood, in lower case and with hyphens. -/
def names : Method → List String
  | gauss => ["gauss", "gaussian", "gaussian-elimination"]
  | gaussJordan => ["gauss-jordan", "jordan", "jordan-gauss"]
  | inverseMatrix => ["inverse", "inverse-matrix", "matrix"]

/-- A name without the blanks around it, in lower case, with a hyphen for each underscore and space.
Only the letters of ASCII have a lower case here. -/
def normalName (s : String) : String :=
  String.ofList ((Text.trim s.toList).map fun c =>
    if c = '_' ∨ c = ' ' then '-' else c.toLower)

def ofName (s : String) : Except Error Method :=
  match all.find? (·.names.contains (normalName s)) with
  | some method => .ok method
  | none => .error (.unknownMethod s)

end Method

structure Options where
  method : Method := .gauss
  trace : Bool := false
deriving DecidableEq

end DenseSystem
