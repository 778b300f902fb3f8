import Geodescent.Simulation.Oracles
import Geodescent.Solver.Basic

/-!
Rules whose behaviour is written down in advance: step lengths from a list, criteria that hold in
given iterations, solvers that always make the same move, and an observer that notes when it is told
of something.
-/
namespace Geodescent.Simulation
variable {α : Type} [Scalar α]

/-- The place in a list for an iteration: the first one before it, the last one after it, and
between the two only whole numbers have one. -/
def placeOf (count : Nat) (iteration : Datum α) : Except Refusal Nat := do
  let k ← iteration.compared
  if k.lt (.whole 1) then .ok 0
  else if (Number.whole (Int.ofNat count)).lt k then .ok (count - 1)
  else
    match iteration.number? with
    | some (.whole n) => .ok (n.toNat - 1)
    | _ => .error .wrongType

def fixedSteps {ε : Type} (values : List (Datum α)) : Stepsize ε α :=
  .custom "Fixed" "Fixed()" fun _ k => do
    let place ← settled (refusing (placeOf values.length k))
    pure ((values[place]?).getD .none)

def holding (id : Nat) (kind : String) (iterations : List Int) (text : Int → String) :
    Check (Surroundings α) α :=
  let shown := kind ++ "([" ++ ", ".intercalate (iterations.map toString) ++ "])"
  .custom kind shown fun _ k => do
    let _ ← Surroundings.count id
    pure (if iterations.contains k then some (text k) else none)

def moving {ε : Type} (text : String) (move : Point α → Except Refusal (Point α)) :
    Solver ε α where
  text := text
  prepare _ _ := pure ()
  step _ _ _ _ := do
    let s ← get
    let y ← settled (refusing (move s.position.x))
    modify (Stepping.place (·.moveTo y))

def phaseText : Phase → String
  | .start => "start"
  | .iteration => "iteration"
  | .stop => "stop"

def tracer (name : String) : Decorator (Surroundings α) α :=
  .custom "Tracer" [("name", .text name), ("trace", .list [])] fun phase t => modify fun o =>
    let k := if phase = .start then t.state.iteration else .whole t.iteration
    let note : Datum α := .list [.text name, .text (phaseText phase), k]
    { o with env := { o.env with trace := o.env.trace.push note } }

end Geodescent.Simulation
