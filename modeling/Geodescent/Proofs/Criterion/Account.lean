import Geodescent.Proofs.Criterion.Memory

/-! What combinations make of the accounts that their members give. They look at nothing else of what
the members remember. -/
namespace Geodescent.Criterion
variable {ε α : Type}

def accounts (nodes : Store (NodeMemory α)) (cs : List (Criterion ε α)) : List (String × Int) :=
  cs.map fun c => (nodes.get c.id).account

/-- The later of two accounts, the first of them if they are equally late. -/
def later (a b : String × Int) : String × Int := if a.2 < b.2 then b else a

def latestReason : List (String × Int) → String
  | [] => ""
  | a :: as => (as.foldl later a).1

def heldReasons (as : List (String × Int)) (answers : List Bool) : String :=
  "\n".intercalate ((as.zip answers).filterMap fun (a, answer) => if answer then some a.1 else none)

theorem account_latest (nodes : Store (NodeMemory α)) (c : Criterion ε α)
    (cs : List (Criterion ε α)) : (nodes.get (latest nodes c cs).id).account =
      (accounts nodes cs).foldl later (nodes.get c.id).account := by
  induction cs generalizing c with
  | nil => rfl
  | cons d ds ih =>
    let next := if (nodes.get c.id).since < (nodes.get d.id).since then d else c
    have hnext : (nodes.get next.id).account =
        later (nodes.get c.id).account (nodes.get d.id).account :=
      apply_ite (fun e : Criterion ε α => (nodes.get e.id).account) _ d c
    change (nodes.get (latest nodes next ds).id).account = (accounts nodes ds).foldl later _
    rw [ih, hnext]

theorem reasonOfAll_eq (nodes : Store (NodeMemory α)) (cs : List (Criterion ε α)) :
    reasonOfAll nodes cs = latestReason (accounts nodes cs) := by
  cases cs with
  | nil => rfl
  | cons c cs => exact congrArg Prod.fst (account_latest nodes c cs)

theorem reasonOfAny_eq (nodes : Store (NodeMemory α)) (cs : List (Criterion ε α))
    (answers : List Bool) :
    reasonOfAny nodes cs answers = heldReasons (accounts nodes cs) answers := by
  rw [reasonOfAny, heldReasons, accounts, List.zip_map_left, List.filterMap_map]
  rfl

end Geodescent.Criterion
