import Geodescent.Solver.Basic

/-!
Gradient descent: every step goes from the point along the negative gradient, as far as the step
rule says, and the gradient at the new point is computed at once, so that rules and criteria always
see the gradient at the present point.
-/
namespace Geodescent.Solver
variable {ε α : Type} [Scalar α]

def carrier (o : Options ε α) : Answer α (Retraction ε α) :=
  match o.flavour with
  | .descent retraction => retraction.resolve
  | _ => .error (.refused .noSuchField)

def refreshGradient (p : Problem ε α) : Stepwise ε α Unit := do
  let s ← get
  let g ← (Stepping.surroundings ε α).run (p.gradientAt s.position.x)
  modify (Stepping.place fun position => { position with gradient := g })

def nextStep (settings : Settings α) (p : Problem ε α) (o : Options ε α) (iteration : Int)
    (allowZero : Bool) : Stepwise ε α α := do
  let s ← get
  let answer ← (Stepping.workshop ε α).run
    (o.stepsize.next settings p s.position (.whole iteration))
  let step ← settled (Stepsize.check answer iteration allowZero)
  modify (Stepping.place fun position => { position with lastStepsize := .real step })
  pure step

def downhill (step : α) (s : Position α) : Answer α (Point α) :=
  refusing ((Datum.real (-step)).mul s.gradient)

def descent : Solver ε α where
  text := "GradientDescent()"
  prepare p o := do
    let _ ← settled (carrier o)
    refreshGradient p
  step settings p o iteration := do
    let step ← nextStep settings p o iteration true
    let move ← settled (carrier o)
    let s ← get
    let v ← settled (downhill step s.position)
    let y ← (Stepping.surroundings ε α).run (move p.manifold s.position.x v)
    modify (Stepping.place (·.moveTo y))
    refreshGradient p

end Geodescent.Solver
