import Geodescent.Manifold.Basic

/-!
Flat space: moving along a vector is addition, the logarithm is a difference and the metric is the
dot product.
-/
namespace Geodescent.Manifold
variable {α : Type} [Scalar α]

namespace Euclidean

def dist (x y : Point α) : Except Refusal α := do
  let v ← y.sub x
  v.norm

end Euclidean

def euclideanOf (n : Datum α) : Manifold α where
  text := "Euclidean(" ++ n.plain ++ ")"
  exp x v := refusing (x.add v)
  log x y := refusing (y.sub x)
  retract x v := refusing (x.add v)
  project _ v := .ok v
  inner _ u v := refusing (u.dot v)
  dist x y := refusing (Euclidean.dist x y)
  contains x _ := do
    let v ← refusing x.toVec
    let line ← isLine n v
    .ok (line && v.isFinite)
  dimension := .ok n
  ambient := .ok n

def euclidean (n : Datum α) : Answer α (Manifold α) := do
  checkDimension "Euclidean" n
  .ok (euclideanOf n)

def createEuclidean (n : Datum α) : Answer α (Manifold α) := do
  checkWholeDimension "Euclidean" n
  .ok (euclideanOf n)

end Geodescent.Manifold
