import Geodescent.Cadence
import Geodescent.Problem

/-!
Token lists. A name or a token asks for an action, a positive number sets the cadence of everything
after it, other text is printed as it stands where that is allowed, and ready-made actions are taken
as they are. `TokenList.parse` reports the first entry that is none of these.
-/
namespace Geodescent

inductive TokenEntry (α β : Type) where
  | value (d : Datum α)
  | action (a : β)

inductive Piece (β : Type) where
  | token (t : Token) (cadence : Cadence)
  | literal (text : String) (cadence : Cadence)
  | action (a : β)

namespace TokenList
variable {α β : Type}

def symbol? : Datum α → Option Token
  | .token t => some t
  | .text name => Token.ofText? name
  | _ => none

theorem symbol?_text (t : Token) : symbol? (.text t.text : Datum α) = some t := Token.ofText?_text t

/-- Only the end of a run is told at its own time. -/
def cadenceOf (t : Token) (current : Cadence) : Cadence :=
  if t = .stop then .onlyAtStop else current

def piece (literals : Bool) (current : Cadence) (d : Datum α) : Answer α (Piece β) :=
  match symbol? d with
  | some t => .ok (.token t (cadenceOf t current))
  | none =>
    match d with
    | .text text =>
      if literals then .ok (.literal text current) else .error (.misuse (.unknownToken d))
    | d => .error (.misuse (.unknownToken d))

def parse (literals : Bool) : Cadence → List (TokenEntry α β) → Answer α (List (Piece β))
  | _, [] => .ok []
  | current, .action a :: rest => do
    let pieces ← parse literals current rest
    .ok (.action a :: pieces)
  | current, .value d :: rest =>
    match d with
    | .truth _ => .error (.misuse (.invalidToken d))
    | .whole n =>
      if h : 0 < n.toNat then parse literals ⟨n.toNat, false, h⟩ rest
      else .error (.misuse (.badCadenceToken n))
    | d => do
      let first ← piece literals current d
      let pieces ← parse literals current rest
      .ok (first :: pieces)

/-- The entries of a value given as a token list; a name or a token alone is a list of one. -/
def entries (d : Datum α) : Answer α (List (TokenEntry α β)) :=
  match d with
  | .text _ => .ok [.value d]
  | .token _ => .ok [.value d]
  | d =>
    match d.items? with
    | some items => .ok (items.map .value)
    | none => .error (.refused .wrongType)

end TokenList
end Geodescent
