import Geodescent.Criterion.Basic

/-!
Asking a criterion. Every member of a tree is asked on every call; a node that holds notes why and
since when, a node that does not forgets since when. Asking in iteration zero renews the whole tree.
-/
namespace Geodescent

structure Judging (ε α : Type) where
  env : ε
  nodes : Store (NodeMemory α)

abbrev Judge (ε α β : Type) := EStateM (Fault α) (Judging ε α) β

namespace Judging
variable {ε α : Type}

def surroundings (ε α : Type) : Part (Judging ε α) ε where
  get j := j.env
  set env j := { j with env := env }

def revise (id : Nat) (f : NodeMemory α → NodeMemory α) (j : Judging ε α) : Judging ε α :=
  { j with nodes := j.nodes.set id (f (j.nodes.get id)) }

def hold (id : Nat) (iteration : Int) (reason : String) : Judging ε α → Judging ε α :=
  revise id fun m =>
    { m with reason := reason, since := if m.since < 0 then iteration else m.since }

def holdUntold (id : Nat) (iteration : Int) : Judging ε α → Judging ε α :=
  revise id fun m => { m with since := if m.since < 0 then iteration else m.since }

def lapse (id : Nat) : Judging ε α → Judging ε α := revise id fun m => { m with since := -1 }

def clear (id : Nat) : Judging ε α → Judging ε α :=
  revise id fun m => { m with reason := "", since := -1 }

end Judging

namespace Check
variable {ε α : Type} [Scalar α]

/-- A timer starts anew. The clock is read off the surroundings, so it stands still within one call of
a tree unless a criterion of the caller's own moves it; from call to call the surroundings move on. -/
def restart (check : Check ε α) (id : Nat) (j : Judging ε α) : Judging ε α :=
  match check with
  | .elapsed _ clock => j.revise id fun m => { m with started := some (clock j.env) }
  | _ => j

/-- What an atom finds: nothing unless it holds, else its reason, if it can be told. -/
abbrev Finding (α : Type) := Option (Answer α String)

def told (reason : String) : Finding α := some (.ok reason)

def smallGradient (threshold : α) (p : Problem ε α) (s : State α) (iteration : Int) :
    Answer α (Finding α) :=
  match s.gradient with
  | .none => .ok none
  | g => do
    let size ← p.manifold.norm s.x g
    .ok (if Scalar.lt size threshold then
      told ("The algorithm reached approximately critical point after " ++ toString iteration ++
        " iterations; the gradient norm (" ++ Scalar.brief size ++ ") is less than " ++
        Scalar.standard threshold ++ ".")
    else none)

def smallChange (threshold : α) (s : State α) (iteration : Int) : Answer α (Finding α) :=
  if iteration ≤ 0 then .ok none
  else do
    let size ← refusing s.lastChange.compared
    .ok (if size.lt (.real threshold) then
      some ((refusing s.lastChange.brief).map fun change =>
        "The algorithm performed a step with a change (" ++ change ++ ") less than " ++
          Scalar.standard threshold ++ ".")
    else none)

def overtime (seconds elapsed : α) : Finding α :=
  if Scalar.le seconds elapsed then
    told ("The algorithm ran for " ++ Scalar.thousandths elapsed ++
      " seconds and exceeded its limit of " ++ Scalar.standard seconds ++ " seconds.")
  else none

/-- What an atom finds in an iteration. A timer that was never started starts now. One reading of the
clock serves for the start and for the time since: the clock stands still within the call. -/
def test (check : Check ε α) (id : Nat) (p : Problem ε α) (s : State α) (iteration : Int) :
    Judge ε α (Finding α) :=
  match check with
  | .cap n =>
    pure (if Int.ofNat n ≤ iteration then
      told ("The algorithm reached its maximal number of iterations (" ++ toString n ++ ").")
    else none)
  | .gradientNorm threshold => settled (smallGradient threshold p s iteration)
  | .change threshold => settled (smallChange threshold s iteration)
  | .elapsed seconds clock => do
    let j ← get
    let now := clock j.env
    match (j.nodes.get id).started with
    | some start => pure (overtime seconds (now - start))
    | none =>
      set (j.revise id fun m => { m with started := some now })
      pure (overtime seconds (now - now))
  | .flag _ probe => do
    let j ← get
    let raised ← settled (refusing (probe j.env).holds)
    pure (if raised then
      told ("The algorithm was stopped externally after " ++ toString iteration ++ " iterations.")
    else none)
  | .custom _ _ test => do
    let reason ← (Judging.surroundings ε α).run (test s iteration)
    pure (reason.map .ok)
  | .value _ => throw (.refused .wrongType)

end Check

namespace Criterion
variable {ε α : Type} [Scalar α]

mutual
def renew : Criterion ε α → Judging ε α → Judging ε α
  | .atom id check, j => check.restart id (j.clear id)
  | .all id members, j => renewEach members (j.clear id)
  | .any id members, j => renewEach members (j.clear id)

def renewEach : List (Criterion ε α) → Judging ε α → Judging ε α
  | [], j => j
  | c :: cs, j => renewEach cs (renew c j)
end

/-- The member that holds since the latest iteration, the leftmost of several. -/
def latest (nodes : Store (NodeMemory α)) (c : Criterion ε α) (cs : List (Criterion ε α)) :
    Criterion ε α :=
  cs.foldl (fun best c =>
    if (nodes.get best.id).since < (nodes.get c.id).since then c else best) c

/-- The reason of the member that completed a conjunction. -/
def reasonOfAll (nodes : Store (NodeMemory α)) : List (Criterion ε α) → String
  | [] => ""
  | c :: cs => (nodes.get (latest nodes c cs).id).reason

def reasonOfAny (nodes : Store (NodeMemory α)) (cs : List (Criterion ε α)) (answers : List Bool) :
    String :=
  "\n".intercalate ((cs.zip answers).filterMap fun (c, answer) =>
    if answer then some (nodes.get c.id).reason else none)

def conclude (id : Nat) (iteration : Int) : Check.Finding α → Judge ε α Bool
  | some (.ok reason) => do
    modify (Judging.hold id iteration reason)
    pure true
  | some (.error fault) => do
    modify (Judging.holdUntold id iteration)
    throw fault
  | none => do
    modify (Judging.lapse id)
    pure false

mutual
def ask (p : Problem ε α) (s : State α) (iteration : Int) : Criterion ε α → Judge ε α Bool
  | .atom id check => do
    if iteration = 0 then modify (renew (.atom id check))
    let finding ← check.test id p s iteration
    conclude id iteration finding
  | .all id members => do
    if iteration = 0 then modify (renew (.all id members))
    let answers ← askEach p s iteration members
    let j ← get
    conclude id iteration
      (if answers.all (· == true) then Check.told (reasonOfAll j.nodes members) else none)
  | .any id members => do
    if iteration = 0 then modify (renew (.any id members))
    let answers ← askEach p s iteration members
    let j ← get
    conclude id iteration
      (if answers.any (· == true) then Check.told (reasonOfAny j.nodes members answers)
      else none)

/-- Every member is asked, whatever the others answer. -/
def askEach (p : Problem ε α) (s : State α) (iteration : Int) :
    List (Criterion ε α) → Judge ε α (List Bool)
  | [] => pure []
  | c :: cs => do
    let answer ← ask p s iteration c
    let answers ← askEach p s iteration cs
    pure (answer :: answers)
end

def evaluate (p : Problem ε α) (s : State α) (iteration : Int) (c : Criterion ε α) :
    Judge ε α (Bool × String) := do
  let stop ← ask p s iteration c
  let j ← get
  pure (stop, if stop then (j.nodes.get c.id).reason else "")

end Criterion
end Geodescent
