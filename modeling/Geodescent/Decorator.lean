import Geodescent.Debug.Run
import Geodescent.Record.Run

/-!
Observers attached to a run, in a chain whose outermost member is asked first. Each is told when the
run starts, after every iteration and when it stops. Records start empty in every run.
-/
namespace Geodescent

inductive Phase where
  | start
  | iteration
  | stop
deriving DecidableEq, Repr

inductive Decorator (ε α : Type) where
  | plain
  | debug (action : DebugAction)
  | record (group : RecordAction)
  | custom (className : String) (fields : List (String × Datum α))
    (hook : Phase → Moment ε α → Observe ε α Unit)

inductive ActionsGiven (α β : Type) where
  | action (a : β)
  | list (entries : List (TokenEntry α β))
  | value (d : Datum α)

namespace ActionsGiven
variable {α β : Type}

def holds [Scalar α] : ActionsGiven α β → Answer α Bool
  | .action _ => .ok true
  | .list entries => .ok (!entries.isEmpty)
  | .value d => refusing d.holds

def entries : ActionsGiven α β → Answer α (List (TokenEntry α β))
  | .action a => .ok [.action a]
  | .list entries => .ok entries
  | .value d => TokenList.entries d

end ActionsGiven

namespace Decorator
variable {ε α : Type}

def className : Decorator ε α → String
  | .plain => "OptionsDecorator"
  | .debug _ => "DebugOptions"
  | .record _ => "RecordOptions"
  | .custom className _ _ => className

def hookNames : List String := ["on_start", "on_iteration", "on_stop"]

def method : Datum α := .thing "method" "method"

def field? (d : Decorator ε α) (name : String) : Option (Datum α) :=
  if hookNames.contains name then some method
  else
    match d with
    | .plain => none
    | .debug action => if name = "debug" then some (.thing action.className "") else none
    | .record group =>
      if name = "record" then some (.thing group.className "")
      else if name = "get_record" then some method
      else none
    | .custom _ fields _ => fields.lookup name

/-- What a chain shows under a name: the outermost decorator that has something decides. -/
def findField? (name : String) : List (Decorator ε α) → Option (Datum α)
  | [] => none
  | d :: ds =>
    match d.field? name with
    | some value => some value
    | none => findField? name ds

def makeDebug (outlet : Option String) (next : Nat) :
    ActionsGiven α DebugAction → Answer α (Decorator ε α × Nat)
  | .action a => .ok (.debug a, next)
  | given => do
    let entries ← given.entries
    let (action, next) ← DebugAction.ofTokens outlet next entries
    .ok (.debug action, next)

/-- Attach a record: a group as it is, another action in a group of its own, anything else as a
token list. -/
def makeRecord (next : Nat) : ActionsGiven α RecordAction → Answer α (Decorator ε α × Nat)
  | .action (.group id members) => .ok (.record (.group id members), next)
  | .action a => .ok (.record (.group next [a]), next + 1)
  | given => do
    let entries ← given.entries
    let (action, next) ← RecordAction.ofTokens next entries
    .ok (.record action, next)

/-- Attach what is given to a chain: the record first, so that debug output, outside of it, comes
before the values are recorded. -/
def attach [Scalar α] (debug : ActionsGiven α DebugAction) (record : ActionsGiven α RecordAction)
    (outlet : Option String) (next : Nat) (chain : List (Decorator ε α)) :
    Answer α (List (Decorator ε α) × Nat) := do
  let (chain, next) ←
    if ← record.holds then do
      let (d, next) ← makeRecord next record
      .ok (d :: chain, next)
    else .ok (chain, next)
  if ← debug.holds then
    let (d, next) ← makeDebug outlet next debug
    .ok (d :: chain, next)
  else .ok (chain, next)

variable [Scalar α]

def tell (phase : Phase) (t : Moment ε α) : Decorator ε α → Observe ε α Unit
  | .plain => pure ()
  | .debug action => action.run t
  | .record group =>
    match phase with
    | .start => do
      modify group.reset
      group.refresh t
    | _ => do
      let _ ← group.run t
      pure ()
  | .custom _ _ hook => hook phase t

def tellEach (phase : Phase) (t : Moment ε α) : List (Decorator ε α) → Observe ε α Unit
  | [] => pure ()
  | d :: ds => do
    tell phase t d
    tellEach phase t ds

def record? : List (Decorator ε α) → Option RecordAction
  | [] => none
  | .record group :: _ => some group
  | _ :: ds => record? ds

def getRecord (memory : Store (ActionMemory α)) (token : Datum α) (chain : List (Decorator ε α)) :
    Answer α (List (Datum α)) :=
  match record? chain with
  | none => .error (.misuse .noRecord)
  | some group =>
    match token with
    | .none => .ok (group.recorded memory)
    | token => group.values memory token

def written (inner : String) : List (Decorator ε α) → String
  | [] => inner
  | d :: ds => d.className ++ "(" ++ written inner ds ++ ")"

end Decorator
end Geodescent
