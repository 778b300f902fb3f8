import Geodescent.Oracle

/-!
Oracles made from the distance to given points: gradient and proximal map of a power of the
distance, and costs that average over data. `mean squared` costs have the gradient that points away
from the mean; the proximal map moves towards its centre and never past it.
-/
namespace Geodescent.Distance
variable {ε α : Type} [Scalar α]

def tiny : α := Scalar.ofDecimal ⟨false, 1, -300⟩

/-- A distance raised to two less than an exponent, or than each entry of an array. -/
def lowered (d : α) (p : Datum α) : Except Refusal (Vec α) :=
  let raise (e : α) : α := Scalar.flush (Scalar.pow d e)
  match p with
  | .array v => .ok (v.map fun e => raise (Scalar.minus e Scalar.two))
  | p =>
    p.compared.map fun
      | .whole k => .ofReal (Scalar.wholePower d (k - 2))
      | .real e => .ofReal (raise (e - Scalar.two))

def gradient (M : Manifold α) (y x : Point α) (p : Datum α) : Answer α (Point α) := do
  let toward ← M.log x y
  if ← refusing (p.equals 2) then refusing toward.neg
  else
    let d ← M.dist x y
    let power ← refusing (lowered (Scalar.maximum d tiny) p)
    let factor := power.map fun r => -(if Scalar.lt 0 d then r else 0)
    refusing ((Datum.array factor).mul toward)

/-- How far along the geodesic the proximal map of `d(f, ·) ^ p / p` moves. -/
def fraction (M : Manifold α) (parameter : Datum α) (f x : Point α) (p : Datum α) :
    Answer α (Datum α) := do
  let size ← refusing parameter.compared
  if size.le (.whole 0) then .error (.misuse (.badProximalParameter parameter))
  else if ← refusing (p.equals 2) then
    let whole ← refusing ((Datum.real 1).add parameter)
    refusing (parameter.div whole)
  else if ← refusing (p.equals 1) then
    let d ← M.dist f x
    if (Number.real d).le size then .ok (.real 1) else refusing (parameter.div (.real d))
  else .error (.misuse (.badExponent p))

def proximal (M : Manifold α) (parameter : Datum α) (f x : Point α) (p : Datum α) :
    Answer α (Point α) := do
  let t ← fraction M parameter f x p
  let toward ← M.log x f
  let step ← refusing (t.mul toward)
  M.exp x step

def total (term : Point α → Answer α α) (data : List (Point α)) : Answer α α :=
  data.foldlM (fun sum d => (term d).map (Scalar.plus sum)) 0

def totalPoint (term : Point α → Answer α (Point α)) (data : List (Point α)) :
    Answer α (Point α) :=
  data.foldlM (fun sum d => do
    let g ← term d
    refusing (sum.add g)) (.whole 0)

def nonempty (data : List (Point α)) : Answer α Unit :=
  if data.isEmpty then .error .noData else .ok ()

def count (data : List (Point α)) : α := Scalar.ofInt (Int.ofNat data.length)

def meanSquared (data : List (Point α)) (M : Manifold α) (y : Point α) : Answer α α := do
  let sum ← total (fun d => (M.dist y d).map fun r => Scalar.times r r) data
  .ok (Scalar.quotient sum (Scalar.ofInt (2 * Int.ofNat data.length)))

def meanSquaredGradient (data : List (Point α)) (M : Manifold α) (y : Point α) :
    Answer α (Point α) := do
  let sum ← totalPoint (fun d => gradient M d y (.whole 2)) data
  refusing (sum.div (.whole (Int.ofNat data.length)))

def mean (data : List (Point α)) (M : Manifold α) (y : Point α) : Answer α α := do
  let sum ← total (fun d => M.dist y d) data
  .ok (Scalar.quotient sum (count data))

def meanSquaredCost (data : List (Point α)) : Answer α (Cost ε α) := do
  nonempty data
  .ok fun M y => settled (meanSquared data M y)

def meanSquaredGradientOracle (data : List (Point α)) : Answer α (Gradient ε α) := do
  nonempty data
  .ok fun M y => settled (meanSquaredGradient data M y)

def meanCost (data : List (Point α)) : Answer α (Cost ε α) := do
  nonempty data
  .ok fun M y => settled (mean data M y)

def proximalMaps (data : List (Point α)) : Answer α (List (ProximalMap ε α)) := do
  nonempty data
  .ok (data.map fun d M parameter y => settled (proximal M parameter d y (.whole 1)))

end Geodescent.Distance
