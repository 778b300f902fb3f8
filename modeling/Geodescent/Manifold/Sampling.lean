import Geodescent.Manifold.Euclidean
import Geodescent.Manifold.Sphere
import Geodescent.Oracle

/-!
Random points and tangent vectors, made from a source of normal samples, and points scattered around
a centre.
-/
namespace Geodescent

structure Sampler (ε α : Type) where
  manifold : Manifold α
  point : Asking ε α (Point α)
  tangent : Point α → α → Asking ε α (Point α)

namespace Sampler
variable {ε α : Type} [Scalar α]

abbrev Normals (ε α : Type) := Nat → Asking ε α (List α)

def drawLike (normals : Normals ε α) (x : Point α) (sigma : α) : Asking ε α (Point α) :=
  match x with
  | .array v => do
    let xs ← normals v.entries.length
    settled (refusing ((Datum.real sigma).mul (.array ⟨v.shape, .real xs⟩)))
  | _ => throw (.refused .noSuchField)

def bare (M : Manifold α) : Sampler ε α where
  manifold := M
  point := throw (.missing .randomPoint)
  tangent _ _ := throw (.missing .randomTangent)

def euclidean (normals : Normals ε α) (n : Nat) (M : Manifold α) : Sampler ε α where
  manifold := M
  point := do
    let xs ← normals n
    pure (.line xs)
  tangent x sigma := drawLike normals x sigma

/-- Uniform points are normalised normal samples, tangent vectors projected ones. -/
def sphere (normals : Normals ε α) (n : Nat) (M : Manifold α) : Sampler ε α where
  manifold := M
  point := do
    let xs ← normals (n + 1)
    settled (refusing (Manifold.Sphere.normalise (.line xs)))
  tangent x sigma := do
    let v ← drawLike normals x sigma
    settled (M.project x v)

def scatter (s : Sampler ε α) (center : Point α) (sigma : α) :
    Nat → Asking ε α (List (Point α))
  | 0 => pure []
  | count + 1 => do
    let v ← s.tangent center sigma
    let y ← settled (s.manifold.exp center v)
    let rest ← scatter s center sigma count
    pure (y :: rest)

def noisyPoints (s : Sampler ε α) (center : Point α) (n : Int) (sigma : α) :
    Asking ε α (List (Point α)) :=
  if n < 1 then throw (.noSamples n) else s.scatter center sigma n.toNat

end Sampler
end Geodescent
