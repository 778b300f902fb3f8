import Geodescent.Manifold.Basic
import Geodescent.Part

/-!
Costs, gradients and proximal maps as oracles: they are asked with a manifold and a point, may look
at and change the surroundings `ε`, and may fail. An oracle without side effects is the lift of a
plain function.
-/
namespace Geodescent

abbrev Asking (ε α β : Type) := EStateM (Fault α) ε β

abbrev Cost (ε α : Type) := Manifold α → Point α → Asking ε α α

abbrev Gradient (ε α : Type) := Manifold α → Point α → Asking ε α (Point α)

abbrev ProximalMap (ε α : Type) := Manifold α → Datum α → Point α → Asking ε α (Point α)

abbrev Retraction (ε α : Type) := Manifold α → Point α → Point α → Asking ε α (Point α)

/-- A place that wants a callable may be given one or any other value. -/
inductive Candidate (α β : Type) where
  | callable (f : β)
  | value (d : Datum α)

def Candidate.require {α β : Type} (name : String) : Candidate α β → Answer α β
  | .callable f => .ok f
  | .value d => .error (.misuse (.notCallable name d))

end Geodescent
