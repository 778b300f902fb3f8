import Geodescent.Parameter
import Geodescent.Problem
import Geodescent.Retraction
import Geodescent.Settings
import Geodescent.State

/-!
Backtracking along the negative gradient. Trial steps shrink by a constant factor until the cost has
decreased sufficiently; the search fails when its budget of contractions is used up, and never
returns a step that it has not accepted.
-/
namespace Geodescent

structure Workshop (ε : Type) where
  env : ε
  journal : Journal

abbrev Working (ε α β : Type) := EStateM (Fault α) (Workshop ε) β

def Workshop.surroundings (ε : Type) : Part (Workshop ε) ε where
  get w := w.env
  set env w := { w with env := env }

def asking {ε α β : Type} (m : Asking ε α β) : Working ε α β := (Workshop.surroundings ε).run m

def journalise {ε α : Type} (entry : JournalEntry) : Working ε α Unit :=
  modify fun w => { w with journal := w.journal.push entry }

structure Armijo (ε α : Type) where
  initial : α
  retraction : RetractionChoice ε α
  move : Retraction ε α
  contraction : α
  decrease : α
  budget : Datum α

namespace Armijo
variable {ε α : Type} [Scalar α]

def make (initial : Datum α) (retraction : RetractionChoice ε α) (contraction decrease : Datum α)
    (budget : Datum α) : Answer α (Armijo ε α) := do
  let initial ← Parameter.number "initial_stepsize" .positive initial
  let move ← retraction.resolve
  let contraction ← Parameter.number "contraction_factor" .belowOne contraction
  let decrease ← Parameter.number "sufficient_decrease" .belowOne decrease
  let budget ← Parameter.budget budget
  .ok ⟨initial, retraction, move, contraction, decrease, budget⟩

def accepts (r : Armijo ε α) (start slope step value : α) : Bool :=
  Scalar.le value (start - r.decrease * step * slope)

def acceptance (step : α) (contractions : Nat) (iteration : Datum α) : JournalEntry :=
  ⟨.stepsize, .detail, "Armijo step " ++ Scalar.brief step ++ " accepted after " ++
    toString contractions ++ " backtracks (iteration " ++ iteration.plain ++ ")"⟩

def trial (r : Armijo ε α) (p : Problem ε α) (x g : Point α) (step : α) : Asking ε α α := do
  let v ← settled (refusing ((Datum.real (-step)).mul g))
  let y ← r.move p.manifold x v
  p.costAt y

/-- Try steps while trials are left; the last trial step is not contracted again. -/
def search (r : Armijo ε α) (p : Problem ε α) (x g : Point α) (start slope : α)
    (iteration budget : Datum α) : Nat → Nat → α → Working ε α α
  | 0, _, step => throw (.exhausted step iteration x budget)
  | left + 1, contractions, step => do
    let value ← asking (r.trial p x g step)
    if r.accepts start slope step value then
      journalise (acceptance step contractions iteration)
      pure step
    else
      search r p x g start slope iteration budget left (contractions + 1)
        (if left = 0 then step else step * r.contraction)

/-- How many steps are tried, one more than the budget. Whole numbers and truth values count, and so
do arrays without axes that hold one. -/
def trials (budget : Datum α) : Answer α Nat :=
  match budget with
  | .whole b => .ok (b + 1).toNat
  | .truth b => .ok (b.toInt + 1).toNat
  | .array ⟨[], .whole [b]⟩ => .ok (wrapEntry (b + 1)).toNat
  | .array ⟨[], .truth [b]⟩ => .ok (b.toInt + 1).toNat
  | _ => .error (.refused .wrongType)

def gradientOf (p : Problem ε α) (s : Position α) : Asking ε α (Point α) :=
  match s.gradient with
  | .none => p.gradientAt s.x
  | g => pure g

def budgetOf (r : Armijo ε α) (settings : Settings α) : Datum α :=
  match r.budget with
  | .none => settings.budget
  | b => b

/-- The first acceptable step; where the gradient vanishes any step will do. -/
def next (r : Armijo ε α) (settings : Settings α) (p : Problem ε α) (s : Position α)
    (iteration : Datum α) : Working ε α α := do
  let g ← asking (gradientOf p s)
  let start ← asking (p.costAt s.x)
  let product ← settled (p.manifold.inner s.x g g)
  let slope ← settled (refusing product.toReal)
  if Scalar.eq slope 0 then pure r.initial
  else
    let budget := r.budgetOf settings
    let count ← settled (trials budget)
    r.search p s.x g start slope iteration budget count 0 r.initial

def written (r : Armijo ε α) : String :=
  "ArmijoLinesearch(initial_stepsize=" ++ Scalar.standard r.initial ++ ", retraction=" ++
    r.retraction.written ++ ", contraction_factor=" ++ Scalar.standard r.contraction ++
    ", sufficient_decrease=" ++ Scalar.standard r.decrease ++ ")"

end Armijo
end Geodescent
