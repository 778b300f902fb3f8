import Geodescent.Datum.Arithmetic
import Geodescent.Defaults
import Geodescent.Fault
import Geodescent.Grid

/-!
Riemannian manifolds as far as solvers need them: exponential map, logarithm, retraction, projection
to tangent space, metric, distance and a test for points. Every operation may fail, so a manifold
can leave some of them out and refuse what is no point.
-/
namespace Geodescent

abbrev Answer (α β : Type) := Except (Fault α) β

structure Manifold (α : Type) where
  text : String
  exp : Point α → Point α → Answer α (Point α)
  log : Point α → Point α → Answer α (Point α)
  retract : Point α → Point α → Answer α (Point α)
  project : Point α → Point α → Answer α (Point α)
  inner : Point α → Point α → Point α → Answer α (Datum α)
  dist : Point α → Point α → Answer α α
  contains : Point α → Datum α → Answer α Bool
  dimension : Answer α (Datum α)
  ambient : Answer α (Datum α)

def refusing {α β : Type} : Except Refusal β → Answer α β
  | .ok b => .ok b
  | .error e => .error (.refused e)

theorem refusing_eq_ok_iff {α β : Type} {a : Except Refusal β} {b : β} :
    (refusing a : Answer α β) = .ok b ↔ a = .ok b := by
  rcases a with e | c
  · exact ⟨fun h => (nomatch h), fun h => (nomatch h)⟩
  · exact ⟨fun h => by cases h; rfl, fun h => by cases h; rfl⟩

theorem bind_eq_ok_iff {α β γ : Type} {a : Answer α β} {f : β → Answer α γ} {c : γ} :
    (a >>= f) = .ok c ↔ ∃ b, a = .ok b ∧ f b = .ok c := by
  constructor
  · intro h
    cases a with
    | ok b => exact ⟨b, rfl, h⟩
    | error e => cases h
  · rintro ⟨b, rfl, h⟩
    exact h

namespace Manifold
variable {α : Type} [Scalar α]

/-- The length that a squared length belongs to; rounding may have made it negative. -/
def lengthOf (squared : Datum α) : Except Refusal α :=
  squared.toReal.map fun q => Scalar.sqrt (Scalar.maximum 0 q)

def norm (M : Manifold α) (x v : Point α) : Answer α α := do
  let q ← M.inner x v v
  refusing (lengthOf q)

/-- A manifold that has nothing but its metric and logarithm, which give the distance. -/
def ofMetric (text : String) (inner : Point α → Point α → Point α → Answer α (Datum α))
    (log : Point α → Point α → Answer α (Point α)) : Manifold α where
  text := text
  exp _ _ := .error (.missing .exponential)
  log := log
  retract _ _ := .error (.missing .retraction)
  project _ _ := .error (.missing .projection)
  inner := inner
  dist x y := do
    let v ← log x y
    let q ← inner x v v
    refusing (lengthOf q)
  contains _ _ := .error (.missing .validation)
  dimension := .error (.missing .dimension)
  ambient := .error (.missing .ambientDimension)

def bare (text : String) : Manifold α :=
  ofMetric text (fun _ _ _ => .error (.missing .innerProduct))
    fun _ _ => .error (.missing .logarithm)

def check (M : Manifold α) (x : Point α) (tolerance : Datum α) : Answer α Unit := do
  if ← M.contains x tolerance then .ok ()
  else .error (.invalidPoint M.text tolerance x)

theorem check_eq_ok_iff {β : Type} (M : Manifold β) (x tolerance : Datum β) :
    M.check x tolerance = .ok () ↔ M.contains x tolerance = .ok true := by
  unfold check
  rw [bind_eq_ok_iff]
  constructor
  · rintro ⟨b, hb, h⟩
    cases b with
    | true => exact hb
    | false => cases h
  · exact fun h => ⟨true, h, rfl⟩

/-- Constructors take anything that compares with numbers and is not below one. -/
def checkDimension (space : String) (n : Datum α) : Answer α Unit := do
  let k ← refusing n.compared
  if k.lt (.whole 1) then .error (.dimensionNotPositive space n) else .ok ()

def checkWholeDimension (space : String) (n : Datum α) : Answer α Unit :=
  match n with
  | .whole k => if k < 1 then .error (.dimensionNotPositive space n) else .ok ()
  | n => .error (.dimensionNotWhole space n.qualifiedKind)

def successor (n : Datum α) : Answer α (Datum α) := refusing (n.add (.whole 1))

def isLine (n : Datum α) (v : Vec α) : Answer α Bool :=
  match v.shape with
  | [k] => refusing (n.equals (Int.ofNat k))
  | _ => .ok false

end Manifold
end Geodescent
