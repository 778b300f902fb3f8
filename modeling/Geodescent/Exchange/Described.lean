import Geodescent.Criterion.Ask
import Geodescent.Debug.Basic
import Geodescent.Record.Basic
import Geodescent.Text.Json

/-!
Descriptions of actions and criteria in answers: the class of each, its cadence and quantity or its
reason and streak, and its members.
-/
namespace Geodescent.Exchange

def described (kind : String) (cadence : Cadence) (token : Option Token)
    (rest : List (String × Json)) : Json :=
  .object ([("type", .text kind), ("every", Json.ofInt (Int.ofNat cadence.every)),
    ("at_stop", .truth cadence.atStop),
    ("token", (token.map fun t => Json.text t.text).getD .null)] ++ rest)

def ownTexts : DebugKind → List (String × Json)
  | .cost label => [("prefix", .text label)]
  | .change label => [("prefix", .text label)]
  | .divider text => [("text", .text text)]
  | _ => []

mutual
def describeDebug : DebugAction → Json
  | .leaf _ kind cadence _ => described kind.className cadence kind.token? (ownTexts kind)
  | .group members =>
    described "DebugGroup" .always none [("actions", .array (describeDebugEach members))]
  | .every cadence action =>
    described "DebugEvery" cadence none [("action", describeDebug action)]

def describeDebugEach : List DebugAction → List Json
  | [] => []
  | a :: as => describeDebug a :: describeDebugEach as
end

mutual
def describeRecord : RecordAction → Json
  | .leaf _ kind cadence => described kind.className cadence kind.token? []
  | .group _ members =>
    described "RecordGroup" .always none [("actions", .array (describeRecordEach members))]
  | .every cadence action =>
    described "RecordEvery" cadence action.token? [("action", describeRecord action)]

def describeRecordEach : List RecordAction → List Json
  | [] => []
  | a :: as => describeRecord a :: describeRecordEach as
end

variable {ε α : Type}

def nodeFields (kind : String) (m : NodeMemory α) : List (String × Json) :=
  [("type", .text kind), ("reason", .text m.reason), ("at", Json.ofInt m.since)]

mutual
def describeCriterion (more : Nat → String → List (String × Json)) (nodes : Store (NodeMemory α)) :
    Criterion ε α → Json
  | .atom id check => .object (nodeFields check.kind (nodes.get id) ++ more id check.kind)
  | .all id members =>
    .object (nodeFields "StopWhenAll" (nodes.get id) ++
      [("of", .array (describeCriterionEach more nodes members))])
  | .any id members =>
    .object (nodeFields "StopWhenAny" (nodes.get id) ++
      [("of", .array (describeCriterionEach more nodes members))])

def describeCriterionEach (more : Nat → String → List (String × Json))
    (nodes : Store (NodeMemory α)) : List (Criterion ε α) → List Json
  | [] => []
  | c :: cs => describeCriterion more nodes c :: describeCriterionEach more nodes cs
end

end Geodescent.Exchange
