import Geodescent.Manifold.Basic

/-!
The moving part of a run. The position is what solvers write: the point, the gradient there and the
last step length; the rest is bookkeeping of the run itself.
-/
namespace Geodescent

/-- Where a solver is; the gradient is nothing as long as none has been computed. -/
structure Position (α : Type) where
  x : Point α
  gradient : Point α
  lastStepsize : Datum α

structure State (α : Type) where
  position : Position α
  iteration : Datum α
  lastChange : Datum α
  stopReason : Datum α

namespace Position
variable {α : Type}

def moveTo (p : Position α) (y : Point α) : Position α := { p with x := y }

def start [Scalar α] (x : Point α) : Position α := ⟨x, .none, .real 0⟩

end Position

namespace State
variable {α : Type}

def x (s : State α) : Point α := s.position.x

def gradient (s : State α) : Point α := s.position.gradient

def start [Scalar α] (x : Point α) : State α := ⟨Position.start x, .whole 0, .real 0, .text ""⟩

end State
end Geodescent
