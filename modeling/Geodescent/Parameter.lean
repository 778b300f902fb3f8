import Geodescent.Manifold.Basic

/-!
Checks of numeric parameters. A number in range is stored as a scalar; what is refused is reported
with the name of the parameter and the value as it was given.
-/
namespace Geodescent.Parameter
variable {α : Type} [Scalar α]

def within : Range → Number α → Bool
  | .nonnegative, .whole n => 0 ≤ n
  | .nonnegative, .real x => !Scalar.lt x 0
  | .positive, .whole n => 0 < n
  | .positive, .real x => !Scalar.le x 0
  | .belowOne, .whole n => 0 < n && n < 1
  | .belowOne, .real x => !Scalar.le x 0 && !Scalar.le 1 x

def number (name : String) (range : Range) (d : Datum α) : Answer α α :=
  match d with
  | .whole n =>
    match Scalar.ofInt? n with
    | none => .error (.refused .tooLarge)
    | some x =>
      if within range (.whole n : Number α) then .ok x
      else .error (.misuse (.outOfRange name range d))
  | .real x =>
    if Scalar.isFinite x then
      if within range (.real x) then .ok x else .error (.misuse (.outOfRange name range d))
    else .error (.misuse (.notFinite name d))
  | d => .error (.misuse (.notFinite name d))

/-- A positive number, infinity included. -/
def threshold (name : String) (d : Datum α) : Answer α α :=
  match d with
  | .whole n =>
    if 0 < n then
      match Scalar.ofInt? n with
      | none => .error (.refused .tooLarge)
      | some x => .ok x
    else .error (.misuse (.badThreshold name d))
  | .real x => if Scalar.lt 0 x then .ok x else .error (.misuse (.badThreshold name d))
  | d => .error (.misuse (.badThreshold name d))

def cap (d : Datum α) : Answer α Nat :=
  match d with
  | .whole n => if 0 ≤ n then .ok n.toNat else .error (.misuse (.badCap d))
  | d => .error (.misuse (.badCap d))

def budget (d : Datum α) : Answer α (Datum α) :=
  match d with
  | .none => .ok .none
  | .whole n => if 0 ≤ n then .ok d else .error (.misuse (.badBudget d))
  | d => .error (.misuse (.badBudget d))

end Geodescent.Parameter
