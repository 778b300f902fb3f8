import Geodescent.Distance
import Geodescent.Retraction
import Geodescent.Simulation.Surroundings

/-!
Oracles, retractions and manifolds whose behaviour is easy to follow: quadratic and linear costs,
costs that answer from a list, oracles that fail from a certain call on or change the surroundings,
and a vector space with weights.
-/
namespace Geodescent.Simulation
variable {α β : Type} [Scalar α]

/-- Fail in every call from number `first` on; without another oracle behind it, in every call. -/
def failing (id : Nat) (first : Int) (message : String)
    (behind : Option (Asking (Surroundings α) α β)) : Asking (Surroundings α) α β := do
  let n ← Surroundings.count id
  match behind with
  | some behind => if first ≤ Int.ofNat n then throw (.oracle message) else behind
  | none => throw (.oracle message)

/-- Move the clock in every call, and from call number `first` on raise a flag. -/
def affecting (id : Nat) (first : Int) (time : α) (flag : Option String)
    (behind : Asking (Surroundings α) α β) : Asking (Surroundings α) α β := do
  let n ← Surroundings.count id
  modify fun s => { s with clock := s.clock + time }
  match flag with
  | some name =>
    if first ≤ Int.ofNat n then modify (Surroundings.setFlag name (.truth true))
  | none => pure ()
  behind

def entryAt? {γ : Type} (entries : List γ) (call : Nat) : Option γ :=
  entries[min (call - 1) (entries.length - 1)]?

def listed (id : Nat) (values : List α) : Cost (Surroundings α) α := fun _ _ => do
  let n ← Surroundings.count id
  pure ((entryAt? values n).getD 0)

def quadratic {ε : Type} (c : α) : Cost ε α := fun _ x => settled (refusing do
  let squares ← x.square
  let total ← squares.sum
  let sum ← total.toReal
  .ok (Scalar.times c sum))

def linear {ε : Type} (c : Point α) : Cost ε α := fun _ x => settled (refusing do
  let products ← c.mul x
  let total ← products.sum
  total.toReal)

def scaling {ε : Type} (c : α) : Gradient ε α := fun _ x =>
  settled (refusing ((Datum.real c).mul x))

def constant {ε : Type} (c : Point α) : Gradient ε α := fun _ _ => pure c

def projected {ε : Type} (c : Point α) : Gradient ε α := fun M x => settled (M.project x c)

def shrinking {ε : Type} : ProximalMap ε α := fun _ l x => settled (refusing do
  let twice ← (Datum.whole 2).mul l
  let divisor ← (Datum.whole 1).add twice
  x.div divisor)

def shifting {ε : Type} (c : Point α) : ProximalMap ε α := fun _ _ x => settled (refusing (x.add c))

def staying {ε : Type} : ProximalMap ε α := fun _ _ x => pure x

def noting (behind : ProximalMap (Surroundings α) α) : ProximalMap (Surroundings α) α :=
  fun M l x => do
    Surroundings.note l
    behind M l x

/-- Half a step, no step, or two steps. -/
def retraction {ε : Type} (name : String) : RetractionChoice ε α :=
  let shown := "Retraction(" ++ Text.quoted name ++ ")"
  match name with
  | "half" => .custom shown fun _ x v => settled (refusing do
    let half ← (Datum.real (1 / Scalar.two)).mul v
    x.add half)
  | "stay" => .custom shown fun _ x _ => pure x
  | _ => .custom shown fun M x v => settled do
    let double ← refusing ((Datum.whole 2).mul v)
    M.retract x double

def weightedSum (weights : Vec α) (u v : Point α) : Except Refusal (Datum α) := do
  let once ← (Datum.array weights).mul u
  let twice ← once.mul v
  twice.sum.map Datum.ofNumber

def weighted (weights : Vec α) : Manifold α :=
  { Manifold.ofMetric "Weighted()" (fun _ u v => refusing (weightedSum weights u v))
      fun x y => refusing (y.sub x) with
    exp := fun x v => refusing (x.add v)
    retract := fun x v => refusing (x.add v)
    contains := fun x _ =>
      match x with
      | .array v => .ok (v.shape == weights.shape)
      | _ => .error (.refused .noSuchField) }

def withNoise (id : Nat) (noise : List (Point α)) (s : Sampler (Surroundings α) α) :
    Sampler (Surroundings α) α :=
  { s with
    tangent := fun x sigma => do
      let n ← Surroundings.count id
      let v ← settled (refusing ((Datum.real sigma).mul
        ((noise[(n - 1) % noise.length]?).getD (.line []))))
      settled (s.manifold.project x v) }

end Geodescent.Simulation
