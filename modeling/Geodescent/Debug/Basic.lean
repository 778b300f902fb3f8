import Geodescent.Observation
import Geodescent.TokenList

/-!
Actions that print: leaves that print one quantity or a fixed text, groups that run their members in
order, and wrappers that let an action through only now and then.
-/
namespace Geodescent

inductive DebugKind where
  | iteration
  | cost (label : String)
  | change (label : String)
  | iterate
  | gradientNorm
  | stepsize
  | stop
  | divider (text : String)
  | silent
deriving DecidableEq

inductive DebugAction where
  | leaf (id : Nat) (kind : DebugKind) (cadence : Cadence) (outlet : Option String)
  | group (members : List DebugAction)
  | every (cadence : Cadence) (action : DebugAction)

namespace DebugKind

def ofToken : Token → DebugKind
  | .iteration => .iteration
  | .cost => .cost "F(x): "
  | .change => .change "Last Change: "
  | .iterate => .iterate
  | .stop => .stop
  | .gradientNorm => .gradientNorm
  | .stepsize => .stepsize

def token? : DebugKind → Option Token
  | .iteration => some .iteration
  | .cost _ => some .cost
  | .change _ => some .change
  | .iterate => some .iterate
  | .gradientNorm => some .gradientNorm
  | .stepsize => some .stepsize
  | .stop => some .stop
  | .divider _ => none
  | .silent => none

def standardCadence : DebugKind → Cadence
  | .stop => .onlyAtStop
  | _ => .always

def className : DebugKind → String
  | .iteration => "DebugIteration"
  | .cost _ => "DebugCost"
  | .change _ => "DebugChange"
  | .iterate => "DebugIterate"
  | .gradientNorm => "DebugGradientNorm"
  | .stepsize => "DebugStepsize"
  | .stop => "DebugStoppingCriterion"
  | .divider _ => "DebugDivider"
  | .silent => "DebugAction"

end DebugKind

namespace DebugAction

def className : DebugAction → String
  | .leaf _ kind _ _ => kind.className
  | .group _ => "DebugGroup"
  | .every .. => "DebugEvery"

mutual
/-- The text of dividers and of groups made of them. -/
def written? : DebugAction → Option String
  | .leaf _ (.divider text) _ _ => some ("DebugDivider(" ++ Text.quoted text ++ ")")
  | .leaf .. => none
  | .group members => (writtenEach? members).map fun parts =>
    "DebugGroup([" ++ ", ".intercalate parts ++ "])"
  | .every .. => none

def writtenEach? : List DebugAction → Option (List String)
  | [] => some []
  | a :: as => do
    let first ← written? a
    let rest ← writtenEach? as
    some (first :: rest)
end

def ofPiece (outlet : Option String) (id : Nat) : Piece DebugAction → DebugAction
  | .token t cadence => .leaf id (.ofToken t) cadence outlet
  | .literal text cadence => .leaf id (.divider text) cadence outlet
  | .action a => a

def ofPieces (outlet : Option String) (next : Nat) (pieces : List (Piece DebugAction)) :
    List DebugAction :=
  pieces.mapIdx fun i piece => ofPiece outlet (next + i) piece

def ofTokens {α : Type} (outlet : Option String) (next : Nat)
    (entries : List (TokenEntry α DebugAction)) : Answer α (DebugAction × Nat) := do
  let pieces ← TokenList.parse true .always entries
  .ok (.group (ofPieces outlet next pieces), next + pieces.length)

end DebugAction
end Geodescent
