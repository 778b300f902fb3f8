import Geodescent.Observation
import Geodescent.TokenList

/-!
Actions that record: leaves that capture one quantity, groups whose members share a log, and
wrappers that let an action through only now and then. Leaves and groups keep their values under a
number.
-/
namespace Geodescent

inductive RecordKind where
  | quantity (t : Token)
  | unwritten
deriving DecidableEq

inductive RecordAction where
  | leaf (id : Nat) (kind : RecordKind) (cadence : Cadence)
  | group (id : Nat) (members : List RecordAction)
  | every (cadence : Cadence) (action : RecordAction)

namespace RecordKind

def token? : RecordKind → Option Token
  | .quantity t => some t
  | .unwritten => none

def standardCadence : RecordKind → Cadence
  | .quantity .stop => .onlyAtStop
  | _ => .always

def className : RecordKind → String
  | .quantity .iteration => "RecordIteration"
  | .quantity .cost => "RecordCost"
  | .quantity .change => "RecordChange"
  | .quantity .iterate => "RecordIterate"
  | .quantity .gradientNorm => "RecordGradientNorm"
  | .quantity .stepsize => "RecordStepsize"
  | .quantity .stop => "RecordStoppingReason"
  | .unwritten => "RecordAction"

end RecordKind

namespace RecordAction

def className : RecordAction → String
  | .leaf _ kind _ => kind.className
  | .group .. => "RecordGroup"
  | .every .. => "RecordEvery"

def token? : RecordAction → Option Token
  | .leaf _ kind _ => kind.token?
  | .group .. => none
  | .every _ action => action.token?

def id : RecordAction → Nat
  | .leaf id _ _ => id
  | .group id _ => id
  | .every _ action => action.id

mutual
/-- The text of groups that hold nothing but such groups. -/
def written? : RecordAction → Option String
  | .leaf .. => none
  | .group _ members => (writtenEach? members).map fun parts =>
    "RecordGroup([" ++ ", ".intercalate parts ++ "])"
  | .every .. => none

def writtenEach? : List RecordAction → Option (List String)
  | [] => some []
  | a :: as => do
    let first ← written? a
    let rest ← writtenEach? as
    some (first :: rest)
end

def ofPiece (id : Nat) : Piece RecordAction → RecordAction
  | .token t cadence => .leaf id (.quantity t) cadence
  | .literal _ cadence => .leaf id .unwritten cadence
  | .action a => a

def ofTokens {α : Type} (next : Nat) (entries : List (TokenEntry α RecordAction)) :
    Answer α (RecordAction × Nat) := do
  let pieces ← TokenList.parse false .always entries
  .ok (.group next (pieces.mapIdx fun i piece => ofPiece (next + 1 + i) piece),
    next + 1 + pieces.length)

end RecordAction
end Geodescent
