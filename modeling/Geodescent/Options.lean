import Geodescent.Criterion.Basic
import Geodescent.Stepsize.Basic

/-!
The rules that steer a run: what stops it, how long its steps are and what the chosen algorithm
needs besides. The state that a run changes is kept apart from them.
-/
namespace Geodescent

inductive Flavour (ε α : Type) where
  | plain
  | descent (retraction : RetractionChoice ε α)
  | sweep (order : Datum α)

structure Options (ε α : Type) where
  flavour : Flavour ε α
  criterion : Criterion ε α
  stepsize : Stepsize ε α

namespace Flavour
variable {ε α : Type}

def className : Flavour ε α → String
  | .plain => "Options"
  | .descent _ => "GradientDescentOptions"
  | .sweep _ => "CyclicProximalPointOptions"

def standardOrder : Datum α := .text "LinearOrder"

def ownFields : Flavour ε α → List String
  | .plain => []
  | .descent _ => ["gradient", "retraction"]
  | .sweep _ => ["evaluation_order"]

def specialFields : List String := ["gradient", "retraction", "evaluation_order"]

def accept (flavour : Flavour ε α) (given : List String) : Answer α Unit :=
  if given.all fun name => flavour.ownFields.contains name || !specialFields.contains name then
    .ok ()
  else .error (.refused .wrongType)

end Flavour

namespace Options
variable {ε α : Type} [Scalar α]

def afterStandardIterations (id : Nat) : Criterion ε α := .atom id (.cap Defaults.maxIterations)

def whenHardlyMoving (id : Nat) : Criterion ε α :=
  .any id [.atom (id + 1) (.cap Defaults.proximalIterations),
    .atom (id + 2) (.change Defaults.proximalChange)]

def standardCriterion (id : Nat) : Flavour ε α → Criterion ε α × Nat
  | .sweep _ => (whenHardlyMoving id, 3)
  | _ => (afterStandardIterations id, 1)

def standardStepsize : Flavour ε α → Stepsize ε α
  | .sweep _ => .decreasing ⟨Defaults.proximalLength, 1, 0, 1⟩
  | _ => .constant Defaults.constantStepsize

def make (id : Nat) (flavour : Flavour ε α) (stepsize : Option (Stepsize ε α))
    (criterion : Option (Criterion ε α)) : Options ε α where
  flavour := flavour
  criterion := criterion.getD (standardCriterion id flavour).1
  stepsize := stepsize.getD (standardStepsize flavour)

def field? (o : Options ε α) (s : State α) (name : String) : Option (Datum α) :=
  match name with
  | "x" => some s.position.x
  | "iteration" => some s.iteration
  | "last_change" => some s.lastChange
  | "last_stepsize" => some s.position.lastStepsize
  | "stop_reason" => some s.stopReason
  | "stopping_criterion" => some o.criterion.shown
  | "stepsize" => some o.stepsize.shown
  | "gradient" =>
    match o.flavour with
    | .descent _ => some s.gradient
    | _ => none
  | "retraction" =>
    match o.flavour with
    | .descent (.given d) => some d
    | .descent (.custom shown _) => some (.thing "Retraction" shown)
    | _ => none
  | "evaluation_order" =>
    match o.flavour with
    | .sweep order => some order
    | _ => none
  | _ => none

def written (o : Options ε α) (s : State α) : String :=
  let common := "x=" ++ s.position.x.written ++ ", stopping_criterion=" ++ o.criterion.written ++
    ", stepsize=" ++ o.stepsize.written ++ ", iteration=" ++ s.iteration.written ++
    ", last_change=" ++ s.lastChange.written ++ ", last_stepsize=" ++
    s.position.lastStepsize.written ++ ", stop_reason=" ++ s.stopReason.written
  let own :=
    match o.flavour with
    | .plain => ""
    | .descent retraction =>
      ", gradient=" ++ s.gradient.written ++ ", retraction=" ++
        retraction.written
    | .sweep order => ", evaluation_order=" ++ order.written
  o.flavour.className ++ "(" ++ common ++ own ++ ")"

end Options
end Geodescent
