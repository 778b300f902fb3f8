import Geodescent.Decimal.Rounding
import Geodescent.Refusal
import Geodescent.Scalar

/-!
Numbers as they are given: whole numbers of any size, or scalars. Arithmetic among whole numbers is
exact; once a scalar takes part, whole numbers are turned into scalars first. Comparisons are exact
in every case.
-/
namespace Geodescent

inductive Number (α : Type) where
  | whole (n : Int)
  | real (x : α)

namespace Number
variable {α : Type} [Scalar α]

def toReal : Number α → Except Refusal α
  | .whole n =>
    match Scalar.ofInt? n with
    | some x => .ok x
    | none => .error .tooLarge
  | .real x => .ok x

def combine (onWholes : Int → Int → Int) (onReals : α → α → α) :
    Number α → Number α → Except Refusal (Number α)
  | .whole n, .whole m => .ok (.whole (onWholes n m))
  | a, b => do
    let x ← a.toReal
    let y ← b.toReal
    .ok (.real (onReals x y))

def add : Number α → Number α → Except Refusal (Number α) := combine (· + ·) (· + ·)

def sub : Number α → Number α → Except Refusal (Number α) := combine (· - ·) (· - ·)

def mul : Number α → Number α → Except Refusal (Number α) := combine (· * ·) (· * ·)

def ratio (n d : Int) : Except Refusal α :=
  if d = 0 then .error .divisionByZero
  else
    let q : α := Scalar.ofDecimal (.ofQuotient (decide ((n < 0) ≠ (d < 0))) n.natAbs d.natAbs)
    if Scalar.isFinite q then .ok q else .error .tooLarge

def div : Number α → Number α → Except Refusal (Number α)
  | .whole n, .whole d => (ratio n d).map .real
  | a, b => do
    let x ← a.toReal
    let y ← b.toReal
    if Scalar.eq y 0 then .error .divisionByZero else .ok (.real (x / y))

def neg : Number α → Number α
  | .whole n => .whole (-n)
  | .real x => .real (-x)

/-- A power of scalars, refused where it lies beyond all of them though its parts do not. -/
def power (base exponent : α) : Except Refusal α :=
  let r := Scalar.pow base exponent
  if Scalar.isFinite base && Scalar.isFinite exponent && !Scalar.isFinite r then .error .tooLarge
  else .ok r

def square : Number α → Except Refusal (Number α)
  | .whole n => .ok (.whole (n * n))
  | .real x =>
    let r := x * x
    if Scalar.isFinite x && !Scalar.isFinite r then .error .tooLarge else .ok (.real r)

def isExact (n : Int) : Bool := n.natAbs ≤ 9007199254740992

def orderOf (n : Int) (x : α) : Option Ordering :=
  if isExact n then
    let y : α := Scalar.ofInt n
    if Scalar.lt y x then some .lt
    else if Scalar.lt x y then some .gt
    else if Scalar.eq y x then some .eq
    else none
  else Expansion.orderOf n (Scalar.expansion x)

def lt : Number α → Number α → Bool
  | .whole n, .whole m => n < m
  | .real x, .real y => Scalar.lt x y
  | .whole n, .real y => orderOf n y = some .lt
  | .real x, .whole m => orderOf m x = some .gt

def eq : Number α → Number α → Bool
  | .whole n, .whole m => n = m
  | .real x, .real y => Scalar.eq x y
  | .whole n, .real y => orderOf n y = some .eq
  | .real x, .whole m => orderOf m x = some .eq

def le : Number α → Number α → Bool
  | .whole n, .whole m => n ≤ m
  | .real x, .real y => Scalar.le x y
  | a, b => a.lt b || a.eq b

end Number
end Geodescent
