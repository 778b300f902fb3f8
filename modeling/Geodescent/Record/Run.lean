import Geodescent.Record.Basic

/-!
Running actions that record. A group adds one entry to its log for every moment at which a member
captured something; nothing is captured before the first iteration. `RecordAction.values` looks up
what was captured of one quantity.
-/
namespace Geodescent.RecordAction
variable {ε α : Type}

def leafActs (cadence : Cadence) (iteration : Int) (stopped : Bool) : Bool :=
  if stopped then cadence.acts iteration stopped else 0 < iteration && cadence.acts iteration false

mutual
def shouldAct (iteration : Int) (stopped : Bool) : RecordAction → Bool
  | .leaf _ _ cadence => leafActs cadence iteration stopped
  | .group _ members => anyShouldAct iteration stopped members
  | .every cadence action =>
    if stopped then shouldAct iteration stopped action
    else cadence.acts iteration false && shouldAct iteration false action

def anyShouldAct (iteration : Int) (stopped : Bool) : List RecordAction → Bool
  | [] => false
  | a :: as => shouldAct iteration stopped a || anyShouldAct iteration stopped as
end

variable [Scalar α]

def capture (t : Moment ε α) (id : Nat) : RecordKind → Observe ε α (Datum α)
  | .unwritten => throw (.missing .capture)
  | .quantity .iteration => pure (.whole t.iteration)
  | .quantity .cost => do
    let value ← Observing.cost t
    pure (.real value)
  | .quantity .change => do
    let o ← get
    match (o.memory.get id).previous with
    | .none =>
      let change ← settled (refusing t.state.lastChange.toReal)
      pure (.real change)
    | previous =>
      let change ← settled (Observing.moved t previous)
      pure (.real change)
  | .quantity .iterate => pure t.state.position.x
  | .quantity .gradientNorm => do
    let size ← settled (Observing.gradientNorm t)
    pure (.real (size.getD Scalar.nan))
  | .quantity .stepsize => do
    let step ← settled (refusing t.state.position.lastStepsize.toReal)
    pure (.real step)
  | .quantity .stop => pure t.state.stopReason

def refreshLeaf (t : Moment ε α) (id : Nat) (kind : RecordKind) : Observe ε α Unit :=
  match kind with
  | .quantity .change => modify (Observing.remember id t.state.x)
  | _ => pure ()

mutual
def refresh (t : Moment ε α) : RecordAction → Observe ε α Unit
  | .leaf id kind _ => refreshLeaf t id kind
  | .group _ members => refreshEach t members
  | .every _ action => refresh t action

def refreshEach (t : Moment ε α) : List RecordAction → Observe ε α Unit
  | [] => pure ()
  | a :: as => do
    refresh t a
    refreshEach t as
end

/-- A leaf captures if it should, then refreshes its memory unless the run has stopped. -/
def runLeaf (t : Moment ε α) (id : Nat) (kind : RecordKind) (cadence : Cadence) :
    Observe ε α (List (Datum α)) := do
  let captured ←
    if leafActs cadence t.iteration t.stopped then do
      let d ← capture t id kind
      modify (Observing.record id d)
      pure [d]
    else pure []
  if !t.stopped then refreshLeaf t id kind
  pure captured

def enter (id : Nat) (captured : List (Datum α)) : Observe ε α (List (Datum α)) :=
  match captured with
  | [] => pure []
  | captured => do
    modify (Observing.record id (.list captured))
    pure [.list captured]

mutual
/-- Run an action at a moment; the answer is what this call captured. -/
def run (t : Moment ε α) : RecordAction → Observe ε α (List (Datum α))
  | .leaf id kind cadence => runLeaf t id kind cadence
  | .group id members => do
    let captured ← runEach t members
    enter id captured
  | .every cadence action =>
    if t.stopped || cadence.acts t.iteration false then run t action
    else do
      refresh t action
      pure []

def runEach (t : Moment ε α) : List RecordAction → Observe ε α (List (Datum α))
  | [] => pure []
  | a :: as => do
    let first ← run t a
    let rest ← runEach t as
    pure (first ++ rest)
end

mutual
def reset : RecordAction → Observing ε α → Observing ε α
  | .leaf id _ _, o => o.erase id
  | .group id members, o => resetEach members (o.erase id)
  | .every _ action, o => reset action o

def resetEach : List RecordAction → Observing ε α → Observing ε α
  | [], o => o
  | a :: as, o => resetEach as (reset a o)
end

def recorded (memory : Store (ActionMemory α)) (a : RecordAction) : List (Datum α) :=
  (memory.get a.id).recorded.toList

mutual
/-- The values of the first member of a group that records a token; inside wrappers only the
wrapped action itself is considered. -/
def find? (memory : Store (ActionMemory α)) (symbol : Option Token) :
    RecordAction → Option (List (Datum α))
  | .leaf id kind _ =>
    if symbol.isSome && kind.token? = symbol then some (memory.get id).recorded.toList else none
  | .group _ members => findEach? memory symbol members
  | .every _ action =>
    if symbol.isSome && action.token? = symbol then some (action.recorded memory) else none

def findEach? (memory : Store (ActionMemory α)) (symbol : Option Token) :
    List RecordAction → Option (List (Datum α))
  | [] => none
  | a :: as =>
    match find? memory symbol a with
    | some values => some values
    | none => findEach? memory symbol as
end

def values (memory : Store (ActionMemory α)) (token : Datum α) (a : RecordAction) :
    Answer α (List (Datum α)) :=
  match a with
  | .group _ members =>
    match findEach? memory (TokenList.symbol? token) members with
    | some values => .ok values
    | none => .error (.misuse (.nothingRecorded token))
  | _ => .error (.refused .noSuchField)

def log (memory : Store (ActionMemory α)) (a : RecordAction) : Answer α (List (Datum α)) :=
  match a with
  | .group .. => .ok (a.recorded memory)
  | _ => .error (.refused .noSuchField)

end Geodescent.RecordAction
