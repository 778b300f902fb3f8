import Geodescent.Debug.Basic

/-!
Running actions that print. A leaf prints at the moments of its cadence and refreshes its memory in
every iteration; a wrapper that holds an action back still lets it refresh its memory, and at the
stop it lets everything through.
-/
namespace Geodescent.DebugAction
variable {ε α : Type}

mutual
def shouldAct (iteration : Int) (stopped : Bool) : DebugAction → Bool
  | .leaf _ _ cadence _ => cadence.acts iteration stopped
  | .group members => anyShouldAct iteration stopped members
  | .every cadence action =>
    if stopped then shouldAct iteration stopped action
    else cadence.acts iteration false && shouldAct iteration false action

def anyShouldAct (iteration : Int) (stopped : Bool) : List DebugAction → Bool
  | [] => false
  | a :: as => shouldAct iteration stopped a || anyShouldAct iteration stopped as
end

def outletOf (outlet : Option String) (settings : Settings α) : Answer α Outlet :=
  match outlet with
  | some name => .ok (.named name)
  | none =>
    match settings.stream with
    | .none => .ok .standard
    | .stream name => .ok (.named name)
    | _ => .error (.refused .noSuchField)

variable [Scalar α]

def content (t : Moment ε α) (id : Nat) : DebugKind → Observe ε α (Option String)
  | .iteration =>
    pure (some (if t.iteration = 0 then "Initial" else "# " ++ toString t.iteration))
  | .cost label => do
    let value ← Observing.cost t
    pure (some (label ++ Scalar.brief value))
  | .change label => do
    let o ← get
    match (o.memory.get id).previous with
    | .none => pure none
    | previous =>
      if 0 < t.iteration then
        let change ← settled (Observing.moved t previous)
        pure (some (label ++ Scalar.brief change))
      else pure none
  | .iterate => do
    let text ← settled (refusing (t.state.x.aligned 6))
    pure (some ("x: " ++ text))
  | .gradientNorm => do
    let size ← settled (Observing.gradientNorm t)
    pure (size.map fun size => "|grad f(x)|: " ++ Scalar.brief size)
  | .stepsize =>
    if 0 < t.iteration then do
      let step ← settled (refusing t.state.position.lastStepsize.brief)
      pure (some ("s: " ++ step))
    else pure none
  | .stop => do
    let known ← settled (refusing t.state.stopReason.holds)
    pure (if known then some (t.state.stopReason.plain ++ "\n") else none)
  | .divider text => pure (some text)
  | .silent => pure none

def put (t : Moment ε α) (outlet : Option String) : Option String → Observe ε α Unit
  | none => pure ()
  | some text => do
    let outlet ← settled (outletOf outlet t.settings)
    modify (Observing.write outlet text)

def refreshLeaf (t : Moment ε α) (id : Nat) (kind : DebugKind) : Observe ε α Unit :=
  match kind with
  | .change _ => modify (Observing.remember id t.state.x)
  | _ => pure ()

mutual
def refresh (t : Moment ε α) : DebugAction → Observe ε α Unit
  | .leaf id kind _ _ => refreshLeaf t id kind
  | .group members => refreshEach t members
  | .every _ action => refresh t action

def refreshEach (t : Moment ε α) : List DebugAction → Observe ε α Unit
  | [] => pure ()
  | a :: as => do
    refresh t a
    refreshEach t as
end

/-- A leaf prints if its cadence says so, then refreshes its memory unless the run has stopped. -/
def runLeaf (t : Moment ε α) (id : Nat) (kind : DebugKind) (cadence : Cadence)
    (outlet : Option String) : Observe ε α Unit := do
  if cadence.acts t.iteration t.stopped then
    let text ← content t id kind
    put t outlet text
  if !t.stopped then refreshLeaf t id kind

mutual
def run (t : Moment ε α) : DebugAction → Observe ε α Unit
  | .leaf id kind cadence outlet => runLeaf t id kind cadence outlet
  | .group members => runEach t members
  | .every cadence action =>
    if t.stopped || cadence.acts t.iteration false then run t action else refresh t action

def runEach (t : Moment ε α) : List DebugAction → Observe ε α Unit
  | [] => pure ()
  | a :: as => do
    run t a
    runEach t as
end

end Geodescent.DebugAction
