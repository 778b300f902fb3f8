import Geodescent.Solver.Sweep

/-!
The outcome of a finished run, and the two solvers as single calls that build the problem, choose
standard rules where none are given, attach observers and run.
-/
namespace Geodescent

structure Outcome (α : Type) where
  point : Point α
  cost : α
  stopReason : Datum α
  iterations : Datum α
  record : Option (List (Datum α))

namespace Outcome
variable {ε α : Type} [Scalar α]

def collect (p : Problem ε α) (chain : List (Decorator ε α)) : Run ε α (Outcome α) := do
  let s ← get
  let cost ← (Session.surroundings ε α).run (p.costAt s.state.x)
  pure
    { point := s.state.position.x
      cost := cost
      stopReason := s.state.stopReason
      iterations := s.state.iteration
      record := (Decorator.record? chain).map fun group => group.recorded s.memory }

end Outcome

structure Choices (ε α : Type) where
  stepsize : Option (Stepsize ε α)
  criterion : Option (Criterion ε α)
  debug : ActionsGiven α DebugAction
  record : ActionsGiven α RecordAction

structure Plan (ε α : Type) where
  problem : Problem ε α
  options : Options ε α
  chain : List (Decorator ε α)
  solver : Solver ε α

namespace Plan
variable {ε α : Type} [Scalar α]

/-- Choose rules and observers; `next` is the first unused number for nodes and actions. -/
def make (next : Nat) (p : Problem ε α) (flavour : Flavour ε α) (solver : Solver ε α)
    (choices : Choices ε α) : Answer α (Plan ε α) := do
  let options := Options.make next flavour choices.stepsize choices.criterion
  let size := (Options.standardCriterion next flavour).2
  let (chain, _) ← Decorator.attach choices.debug choices.record none (next + size) []
  .ok ⟨p, options, chain, solver⟩

def descent (next : Nat) (M : Option (Manifold α)) (cost : Candidate α (Cost ε α))
    (gradient : Candidate α (Gradient ε α)) (retraction : RetractionChoice ε α)
    (choices : Choices ε α) : Answer α (Plan ε α) := do
  let p ← Problem.withGradient M cost gradient
  make next p (.descent retraction) Solver.descent choices

/-- The cyclic proximal point algorithm on a problem given by its parts. Unless a step rule is given
the parameters follow the harmonic schedule of the given length. -/
def sweep (next : Nat) (M : Option (Manifold α)) (cost : Candidate α (Cost ε α))
    (maps : MapsGiven ε α) (length : Datum α) (choices : Choices ε α) : Answer α (Plan ε α) := do
  let p ← Problem.withProximalMaps M cost maps
  let rule ←
    match choices.stepsize with
    | some rule => .ok rule
    | none => (Schedule.harmonic length).map Stepsize.decreasing
  make next p (.sweep Flavour.standardOrder) Solver.sweep { choices with stepsize := some rule }

def sweepEntry (plan : Plan ε α) : Answer α JournalEntry := do
  let maps ← plan.problem.maps
  .ok ⟨.sweep, .detail, "Cyclic proximal point with " ++ toString maps.length ++
    " proximal maps and " ++ plan.options.stepsize.written⟩

def run (fuel : Nat) (plan : Plan ε α) : Run ε α Unit :=
  plan.solver.solve fuel plan.problem plan.options plan.chain

def runSweep (fuel : Nat) (plan : Plan ε α) : Run ε α Unit := do
  let entry ← settled plan.sweepEntry
  modify (Session.note entry)
  plan.run fuel

end Plan
end Geodescent
