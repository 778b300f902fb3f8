import Geodescent.Datum

/-!
The numbers that are used where the caller gives none: tolerances, and the standard parameters of
solvers and step rules.
-/
namespace Geodescent.Defaults
variable {α : Type} [Scalar α]

def epsilon : α := Scalar.ofDecimal ⟨false, 1, -10⟩

def relativeTolerance : α := Scalar.ofDecimal ⟨false, 1, -8⟩

def absoluteTolerance : α := Scalar.ofDecimal ⟨false, 1, -10⟩

def validationTolerance : α := Scalar.ofDecimal ⟨false, 1, -6⟩

def maxIterations : Nat := 100

def constantStepsize : α := 1

def armijoInitial : α := 1

def armijoContraction : α := Scalar.ofDecimal ⟨false, 95, -2⟩

def armijoDecrease : α := Scalar.ofDecimal ⟨false, 1, -1⟩

def armijoBacktracks : Nat := 100

def proximalLength : α := 1

def proximalIterations : Nat := 5000

def proximalChange : α := Scalar.ofDecimal ⟨false, 1, -12⟩

def numerical : List (String × Datum α) :=
  [("EPSILON", .real epsilon), ("RTOL", .real relativeTolerance), ("ATOL", .real absoluteTolerance),
    ("VALIDATION_TOLERANCE", .real validationTolerance)]

def solvers : List (String × Datum α) :=
  [("MAX_ITERATIONS", .whole maxIterations), ("CONSTANT_STEPSIZE", .real constantStepsize),
    ("ARMIJO_INITIAL_STEPSIZE", .real armijoInitial),
    ("ARMIJO_CONTRACTION_FACTOR", .real armijoContraction),
    ("ARMIJO_SUFFICIENT_DECREASE", .real armijoDecrease),
    ("ARMIJO_MAX_BACKTRACKS", .whole armijoBacktracks), ("PROXIMAL_LAMBDA", .real proximalLength),
    ("PROXIMAL_MAX_ITERATIONS", .whole proximalIterations),
    ("PROXIMAL_MIN_CHANGE", .real proximalChange)]

def version : String := "0.1.0"

end Geodescent.Defaults
