import Geodescent.Parameter
import Geodescent.Problem
import Geodescent.State
import Geodescent.Store

/-!
Stopping criteria: atoms that look at the run, the clock or a flag, and trees of them that ask for
all or for any. A value may stand in the place of an atom until it is asked. Every node has a number
under which its memory is kept, so a node may stand in several places of a tree and in several
trees.
-/
namespace Geodescent

/-- What a node remembers: the explanation it gave last, the iteration since which it holds without
interruption, `-1` while it does not, and for timers the moment at which they started. -/
structure NodeMemory (α : Type) where
  reason : String
  since : Int
  started : Option α

instance {α : Type} : Inhabited (NodeMemory α) := ⟨"", -1, none⟩

inductive Check (ε α : Type) where
  | cap (iterations : Nat)
  | gradientNorm (threshold : α)
  | change (threshold : α)
  | elapsed (seconds : α) (clock : ε → α)
  | flag (shown : String) (probe : ε → Datum α)
  | custom (kind shown : String) (test : State α → Int → Asking ε α (Option String))
  | value (d : Datum α)

inductive Criterion (ε α : Type) where
  | atom (id : Nat) (check : Check ε α)
  | all (id : Nat) (members : List (Criterion ε α))
  | any (id : Nat) (members : List (Criterion ε α))

namespace Check
variable {ε α : Type}

def kind : Check ε α → String
  | .cap _ => "StopAfterIteration"
  | .gradientNorm _ => "StopWhenGradientNormLess"
  | .change _ => "StopWhenChangeLess"
  | .elapsed .. => "StopAfter"
  | .flag .. => "StopWhenFlagSet"
  | .custom kind _ _ => kind
  | .value d => d.kind

def written [Scalar α] : Check ε α → String
  | .cap n => "StopAfterIteration(" ++ toString n ++ ")"
  | .gradientNorm t => "StopWhenGradientNormLess(" ++ Scalar.standard t ++ ")"
  | .change t => "StopWhenChangeLess(" ++ Scalar.standard t ++ ")"
  | .elapsed seconds _ => "StopAfter(" ++ Scalar.standard seconds ++ ")"
  | .flag shown _ => "StopWhenFlagSet(" ++ shown ++ ")"
  | .custom _ shown _ => shown
  | .value d => d.written

def makeCap (d : Datum α) : Answer α (Check ε α) := (Parameter.cap d).map .cap

variable [Scalar α]

def makeGradientNorm (d : Datum α) : Answer α (Check ε α) :=
  (Parameter.threshold "threshold" d).map .gradientNorm

def makeChange (d : Datum α) : Answer α (Check ε α) :=
  (Parameter.threshold "threshold" d).map .change

def makeElapsed (clock : ε → α) (d : Datum α) : Answer α (Check ε α) :=
  (Parameter.threshold "seconds" d).map (.elapsed · clock)

end Check

namespace Criterion
variable {ε α : Type}

def id : Criterion ε α → Nat
  | .atom id _ => id
  | .all id _ => id
  | .any id _ => id

def kind : Criterion ε α → String
  | .atom _ check => check.kind
  | .all .. => "StopWhenAll"
  | .any .. => "StopWhenAny"

mutual
def written [Scalar α] : Criterion ε α → String
  | .atom _ check => check.written
  | .all _ members => "StopWhenAll(" ++ ", ".intercalate (writtenEach members) ++ ")"
  | .any _ members => "StopWhenAny(" ++ ", ".intercalate (writtenEach members) ++ ")"

def writtenEach [Scalar α] : List (Criterion ε α) → List String
  | [] => []
  | c :: cs => written c :: writtenEach cs
end

def satisfied (kind : String) : String := kind ++ " was satisfied."

def unwritten (kind shown : String) : Check ε α :=
  .custom kind shown fun _ _ => throw (.missing .check)

def shown [Scalar α] : Criterion ε α → Datum α
  | .atom _ (.value d) => d
  | c => .text c.written

inductive Member (ε α : Type) where
  | criterion (c : Criterion ε α)
  | value (d : Datum α)
  | list (members : List (Member ε α))

def Member.datum [Scalar α] : Member ε α → Datum α
  | .criterion c => .thing c.kind c.written
  | .value d => d
  | .list members => .list (members.map fun m =>
    match m with
    | .criterion c => .thing c.kind c.written
    | .value d => d
    | .list _ => .list [])

/-- All members must be criteria; the first that is not is reported. -/
def requireEach [Scalar α] : List (Member ε α) → Answer α (List (Criterion ε α))
  | [] => .ok []
  | .criterion c :: ms => do
    let cs ← requireEach ms
    .ok (c :: cs)
  | m :: _ => .error (.misuse (.notCriterion m.datum))

/-- A list in the place of a single member stands for its items. -/
def unwrap : List (Member ε α) → List (Member ε α)
  | [.list ms] => ms
  | [.value (.list ds)] => ds.map .value
  | ms => ms

def members [Scalar α] (given : List (Member ε α)) : Answer α (List (Criterion ε α)) :=
  match unwrap given with
  | [] => .error (.misuse .noCriteria)
  | ms => requireEach ms

def makeAll [Scalar α] (id : Nat) (given : List (Member ε α)) : Answer α (Criterion ε α) :=
  (members given).map (.all id)

def makeAny [Scalar α] (id : Nat) (given : List (Member ε α)) : Answer α (Criterion ε α) :=
  (members given).map (.any id)

end Criterion
end Geodescent
