import Geodescent.Session

/-!
A solver prepares a position and performs one iteration at a time. `Solver.solve` runs the loop
around it: it checks the starting point, keeps the books, tells the observers and asks the stopping
criterion after every iteration.
-/
namespace Geodescent

structure Solver (ε α : Type) where
  text : String
  prepare : Problem ε α → Options ε α → Stepwise ε α Unit
  step : Settings α → Problem ε α → Options ε α → Int → Stepwise ε α Unit

namespace Solver
variable {ε α : Type} [Scalar α]

def unwritten (text : String) : Solver ε α where
  text := text
  prepare _ _ := pure ()
  step _ _ _ _ := throw (.missing .solverStep)

def startingPoint (x : Point α) : Answer α (Vec α) :=
  match x with
  | .none => .error (.misuse .noPoint)
  | x =>
    match x.toVec with
    | .error .tooLarge => .error (.refused .tooLarge)
    | .error _ => .error (.misuse (.noArray x))
    | .ok v => .ok v

def checkPoint (settings : Settings α) (p : Problem ε α) (v : Vec α) : Answer α Unit := do
  if ← refusing settings.validate.holds then
    if ← p.manifold.contains (.array v) settings.tolerance then .ok ()
    else .error (.misuse (.offManifold p.manifold.text (.array v)))
  else .ok ()

def validate (p : Problem ε α) : Run ε α Unit := do
  let s ← get
  let v ← settled (startingPoint s.state.position.x)
  modify (Session.advance fun state =>
    { state with position := state.position.moveTo (.array v) })
  settled (checkPoint s.settings p v)

def tell (p : Problem ε α) (chain : List (Decorator ε α)) (phase : Phase) (iteration : Int) :
    Run ε α Unit := do
  let s ← get
  (Session.observing ε α).run
    (Decorator.tellEach phase (s.moment p iteration (phase = .stop)) chain)

def judge (p : Problem ε α) (o : Options ε α) (iteration : Int) : Run ε α Bool := do
  let s ← get
  (Session.judging ε α).run (o.criterion.ask p s.state iteration)

def opened (state : State α) : State α :=
  { state with iteration := .whole 0, lastChange := .real 0, stopReason := .text "" }

def openingEntry (p : Problem ε α) (o : Options ε α) (solver : Solver ε α) : JournalEntry :=
  ⟨.run, .detail, "Starting " ++ solver.text ++ " on " ++ p.manifold.text ++ " with " ++
    o.criterion.written⟩

def passEntry (iteration : Int) (change : α) : JournalEntry :=
  ⟨.run, .detail, "Iteration " ++ toString iteration ++ ": change " ++ Scalar.brief change⟩

def closingEntry (solver : Solver ε α) (iteration : Int) (reason : String) : JournalEntry :=
  ⟨.run, .notice, solver.text ++ " stopped after " ++ toString iteration ++ " iterations: " ++
    reason⟩

def pass (p : Problem ε α) (o : Options ε α) (chain : List (Decorator ε α)) (solver : Solver ε α)
    (iteration : Int) : Run ε α Unit := do
  let before ← get
  (Session.stepping ε α).run (solver.step before.settings p o iteration)
  modify (Session.advance fun state => { state with iteration := .whole iteration })
  let after ← get
  let change ← settled (p.manifold.dist before.state.x after.state.x)
  modify (Session.advance fun state => { state with lastChange := .real change })
  tell p chain .iteration iteration
  modify (Session.note (passEntry iteration change))

/-- Iterate after `done` iterations until the criterion holds, at most `fuel` times more; the answer
is the number of iterations. -/
def iterate (p : Problem ε α) (o : Options ε α) (chain : List (Decorator ε α))
    (solver : Solver ε α) : Nat → Nat → Run ε α Nat
  | 0, _ => throw .unfinished
  | fuel + 1, done => do
    pass p o chain solver (Int.ofNat (done + 1))
    let stop ← judge p o (Int.ofNat (done + 1))
    if stop then pure (done + 1) else iterate p o chain solver fuel (done + 1)

def begin (p : Problem ε α) (o : Options ε α) (chain : List (Decorator ε α))
    (solver : Solver ε α) : Run ε α Unit := do
  validate p
  modify (Session.advance opened)
  (Session.stepping ε α).run (solver.prepare p o)
  tell p chain .start 0
  modify (Session.note (openingEntry p o solver))

def finish (p : Problem ε α) (o : Options ε α) (chain : List (Decorator ε α))
    (solver : Solver ε α) (iterations : Nat) : Run ε α Unit := do
  modify fun s => s.advance fun state =>
    { state with stopReason := .text (s.nodes.get o.criterion.id).reason }
  let s ← get
  modify (Session.note (closingEntry solver (Int.ofNat iterations) s.state.stopReason.plain))
  tell p chain .stop (Int.ofNat iterations)

/-- Run a solver until its criterion holds, for at most `fuel` iterations. -/
def solve (fuel : Nat) (p : Problem ε α) (o : Options ε α) (chain : List (Decorator ε α))
    (solver : Solver ε α) : Run ε α Unit := do
  begin p o chain solver
  let stop ← judge p o 0
  let iterations ← if stop then pure 0 else iterate p o chain solver fuel 0
  finish p o chain solver iterations

end Solver
end Geodescent
