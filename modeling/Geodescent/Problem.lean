import Geodescent.Oracle

/-!
Problems: a manifold, a cost on it and what a solver may ask besides, a gradient or the proximal
maps of the summands. Constructors refuse a missing manifold and anything that is not callable.
-/
namespace Geodescent

inductive Means (ε α : Type) where
  | costOnly
  | gradient (g : Gradient ε α)
  | proximal (maps : List (ProximalMap ε α))

structure Problem (ε α : Type) where
  manifold : Manifold α
  cost : Cost ε α
  means : Means ε α

inductive MapsGiven (ε α : Type) where
  | sequence (maps : List (Candidate α (ProximalMap ε α)))
  | value (d : Datum α)

namespace Problem
variable {ε α : Type}

def costAt (p : Problem ε α) (x : Point α) : Asking ε α α := p.cost p.manifold x

def gradientAt (p : Problem ε α) (x : Point α) : Asking ε α (Point α) :=
  match p.means with
  | .gradient g => g p.manifold x
  | _ => throw (.refused .noSuchField)

def maps (p : Problem ε α) : Answer α (List (ProximalMap ε α)) :=
  match p.means with
  | .proximal maps => .ok maps
  | _ => .error (.refused .noSuchField)

/-- An element by number; negative numbers count from the end. -/
def element? {β : Type} (items : List β) (i : Int) : Option β :=
  if 0 ≤ i then items[i.toNat]?
  else
    let back := (-i).toNat
    if back ≤ items.length then items[items.length - back]? else none

def proximalAt (p : Problem ε α) (parameter : Datum α) (x : Point α) (i : Int) :
    Asking ε α (Point α) := do
  let maps ← settled p.maps
  match element? maps i with
  | some f => f p.manifold parameter x
  | none => throw (.refused .outOfBounds)

theorem gradientAt_of_gradient {p : Problem ε α} {g : Gradient ε α} (h : p.means = .gradient g)
    (x : Point α) : p.gradientAt x = g p.manifold x := by
  simp [gradientAt, h]

/-- A problem where none was given: every use of it fails. -/
def missing : Problem ε α :=
  let fail {β : Type} : Answer α β := .error (.refused .noSuchField)
  ⟨⟨"None", fun _ _ => fail, fun _ _ => fail, fun _ _ => fail, fun _ _ => fail, fun _ _ _ => fail,
    fun _ _ => fail, fun _ _ => fail, fail, fail⟩, fun _ _ => settled fail, .costOnly⟩

def requireManifold (M : Option (Manifold α)) : Answer α (Manifold α) :=
  match M with
  | some M => .ok M
  | none => .error (.misuse .noManifold)

def plain (M : Option (Manifold α)) (cost : Candidate α (Cost ε α)) : Answer α (Problem ε α) := do
  let M ← requireManifold M
  let cost ← cost.require "cost"
  .ok ⟨M, cost, .costOnly⟩

def withGradient (M : Option (Manifold α)) (cost : Candidate α (Cost ε α))
    (gradient : Candidate α (Gradient ε α)) : Answer α (Problem ε α) := do
  let p ← plain M cost
  let gradient ← gradient.require "gradient"
  .ok { p with means := .gradient gradient }

def requireMaps (i : Nat) : List (Candidate α (ProximalMap ε α)) →
    Answer α (List (ProximalMap ε α))
  | [] => .ok []
  | c :: cs => do
    let f ← c.require ("proximal_maps[" ++ toString i ++ "]")
    let fs ← requireMaps (i + 1) cs
    .ok (f :: fs)

theorem requireMaps_callable (i : Nat) (fs : List (ProximalMap ε α)) :
    requireMaps i (fs.map .callable) = .ok fs := by
  induction fs generalizing i with
  | nil => rfl
  | cons f fs ih =>
    change (requireMaps (i + 1) (fs.map .callable) >>= fun gs => .ok (f :: gs)) = .ok (f :: fs)
    rw [ih]
    rfl

def withProximalMaps (M : Option (Manifold α)) (cost : Candidate α (Cost ε α))
    (given : MapsGiven ε α) : Answer α (Problem ε α) := do
  let p ← plain M cost
  match given with
  | .value d => .error (.misuse (.noProximalMaps d))
  | .sequence [] => .error (.misuse (.noProximalMaps (.list [])))
  | .sequence cs => do
    let fs ← requireMaps 0 cs
    .ok { p with means := .proximal fs }

end Problem

/-- The items of a value that can be walked through; texts do not count. -/
def Datum.items? {α : Type} : Datum α → Option (List (Datum α))
  | .list items => some items
  | .table keys _ => some (keys.map .text)
  | .stream _ => some []
  | .array v => v.parts?.map fun parts => parts.map .array
  | _ => Option.none

def MapsGiven.ofDatum {ε α : Type} (d : Datum α) : MapsGiven ε α :=
  match d.items? with
  | some items => .sequence (items.map .value)
  | none => .value d

end Geodescent
