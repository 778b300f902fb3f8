import Geodescent.Manifold.Basic

/-!
The unit sphere in the space of one dimension more, with the metric of that space. Points move along
great circles and are normalised after every move; the distance is taken from the chord. Of several
tolerances a point has to meet all.
-/
namespace Geodescent.Manifold
namespace Sphere
variable {α : Type} [Scalar α]

def project (x v : Point α) : Except Refusal (Point α) := do
  let along ← x.dot v
  let part ← along.mul x
  v.sub part

def normalise (y : Point α) : Except Refusal (Point α) := do
  let length ← y.norm
  y.div (.single length)

def exp (x v : Point α) : Except Refusal (Point α) := do
  let length ← v.norm
  let ahead ← (Datum.single (Scalar.cos length)).mul x
  let turned ← (Datum.single (Scalar.sin length)).mul v
  let aside ← turned.div (.single (Scalar.maximum length Defaults.epsilon))
  let y ← ahead.add aside
  normalise y

def retract (x v : Point α) : Except Refusal (Point α) := do
  let y ← x.add v
  normalise y

/-- The length of the arc between two points, from half their chord. -/
def dist (x y : Point α) : Except Refusal α := do
  let v ← x.sub y
  let length ← v.norm
  let chord := Scalar.minimum (Scalar.maximum (Scalar.quotient length Scalar.two) 0) 1
  .ok (Scalar.times Scalar.two (Scalar.arcsin chord))

def log (x y : Point α) : Except Refusal (Point α) := do
  let chord ← y.sub x
  let v ← project x chord
  let length ← v.norm
  let arc ← dist x y
  let stretched ← (Datum.single arc).mul v
  let w ← stretched.div (.single (Scalar.maximum length Defaults.epsilon))
  if Scalar.lt Defaults.epsilon length then .ok w else w.zeros

/-- Whether a length is one, exactly or up to the tolerance and a fixed relative error of `1e-5`. -/
def isUnit (tolerance length : α) : Bool :=
  Scalar.eq length 1 ||
    Scalar.le (Scalar.magnitude (length - 1))
      (tolerance + Scalar.ofDecimal ⟨false, 1, -5⟩ * Scalar.magnitude 1)

def tolerances (tolerance : Datum α) : Except Refusal (List α) :=
  match tolerance with
  | .none => .error .wrongValue
  | t => t.argument.map Vec.reals

end Sphere

variable {α : Type} [Scalar α]
def sphereOf (n : Datum α) : Manifold α where
  text := "Sphere(" ++ n.plain ++ ")"
  exp x v := refusing (Sphere.exp x v)
  log x y := refusing (Sphere.log x y)
  retract x v := refusing (Sphere.retract x v)
  project x v := refusing (Sphere.project x v)
  inner _ u v := refusing (u.dot v)
  dist x y := refusing (Sphere.dist x y)
  contains x tolerance := do
    let v ← refusing x.toVec
    let size ← successor n
    if ← isLine size v then
      let ts ← refusing (Sphere.tolerances tolerance)
      .ok (ts.all (Sphere.isUnit · v.norm))
    else .ok false
  dimension := .ok n
  ambient := successor n

def sphere (n : Datum α) : Answer α (Manifold α) := do
  checkDimension "Sphere" n
  .ok (sphereOf n)

def createSphere (n : Datum α) : Answer α (Manifold α) := do
  checkWholeDimension "Sphere" n
  .ok (sphereOf n)

def standardSphere : Datum α := .whole 2

end Geodescent.Manifold
