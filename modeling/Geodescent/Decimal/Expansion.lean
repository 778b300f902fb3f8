/-!
Numbers as a computer holds them and as a page shows them: a binary `Expansion` is a sign, a
significand and a power of two, a `Decimal` is a sign, a significand and a power of ten. The
magnitude of a decimal is the power of ten of its first figure.
-/
namespace Geodescent

/-- A number `± significand · 2 ^ exponent`, or one of the values that are no real number. -/
inductive Expansion where
  | nan
  | infinite (negative : Bool)
  | finite (negative : Bool) (significand : Nat) (exponent : Int)
deriving DecidableEq

structure Decimal where
  negative : Bool
  digits : Nat
  exponent : Int
deriving DecidableEq

namespace Expansion

def ofFloat (x : Float) : Expansion :=
  let bits := x.toBits.toNat
  let negative := bits / Nat.pow 2 63 == 1
  let exponent := bits / Nat.pow 2 52 % 2048
  let fraction := bits % Nat.pow 2 52
  if exponent = 2047 then
    if fraction = 0 then .infinite negative else .nan
  else if exponent = 0 then .finite negative fraction (-1074)
  else .finite negative (Nat.pow 2 52 + fraction) (Int.ofNat exponent - 1075)

def quotient (m : Nat) (e : Int) : Nat × Nat := (m * Nat.pow 2 e.toNat, Nat.pow 2 (-e).toNat)

/-- How a whole number lies to an expansion, decided exactly; nothing lies to what is no number. -/
def orderOf (n : Int) : Expansion → Option Ordering
  | .nan => none
  | .infinite negative => some (if negative then .gt else .lt)
  | .finite negative m e =>
    let (num, den) := quotient m e
    some (compare (n * Int.ofNat den) (if negative then -Int.ofNat num else Int.ofNat num))

end Expansion

namespace Decimal

def figures (d : Decimal) : List Char := Nat.toDigits 10 d.digits

def magnitude (d : Decimal) : Int := d.exponent + Int.ofNat d.figures.length - 1

end Decimal
end Geodescent
