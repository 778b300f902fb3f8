import Geodescent.Solver.Descent

/-!
The cyclic proximal point algorithm: one iteration applies all proximal maps in declared order, each
to the result of the one before, with the step length divided evenly among them. The point moves
only when the whole sweep has succeeded.
-/
namespace Geodescent.Solver
variable {ε α : Type} [Scalar α]

def checkOrder (order : Datum α) : Answer α Unit :=
  match order with
  | .text name =>
    if orderNames.contains name then .ok () else .error (.misuse (.unknownOrder order))
  | order => .error (.misuse (.unknownOrder order))

def orderOf (o : Options ε α) : Answer α (Datum α) :=
  match o.flavour with
  | .sweep order => .ok order
  | _ => .error (.refused .noSuchField)

def applyMaps (M : Manifold α) (weight : α) :
    List (ProximalMap ε α) → Point α → Asking ε α (Point α)
  | [], x => pure x
  | f :: fs, x => do
    let y ← f M (.real weight) x
    applyMaps M weight fs y

def sweep : Solver ε α where
  text := "CyclicProximalPoint()"
  prepare _ o := do
    let order ← settled (orderOf o)
    settled (checkOrder order)
    if o.stepsize.needsGradient then
      let kind := o.stepsize.kind
      throw (.misuse (.needsGradient kind (.thing kind o.stepsize.written)))
  step settings p o iteration := do
    let step ← nextStep settings p o iteration false
    let maps ← settled p.maps
    let s ← get
    let weight := step / Scalar.ofInt (Int.ofNat maps.length)
    let y ← (Stepping.surroundings ε α).run (applyMaps p.manifold weight maps s.position.x)
    modify (Stepping.place (·.moveTo y))

end Geodescent.Solver
