import Geodescent.Decimal.Expansion

/-!
Rounding an exact quotient to a decimal grid, a half to the even neighbour: to a number of places
after the point, or to a number of significant figures.
-/
namespace Geodescent.Decimal

/-- The whole number nearest to `num / den`; a half goes to the even neighbour. -/
def nearest (num den : Nat) : Nat :=
  let q := num / den
  let r := num % den
  if 2 * r < den then q
  else if den < 2 * r then q + 1
  else if q % 2 = 0 then q else q + 1

def leading (num den : Nat) : Int :=
  if den ≤ num then Int.ofNat (Nat.toDigits 10 (num / den)).length - 1
  else
    let figures := (Nat.toDigits 10 (den / num)).length
    if den ≤ num * Nat.pow 10 (figures - 1) then 1 - Int.ofNat figures else - Int.ofNat figures

def onGrid (exponent : Int) (num den : Nat) : Nat :=
  nearest (num * Nat.pow 10 (-exponent).toNat) (den * Nat.pow 10 exponent.toNat)

def toPlaces (places : Nat) (negative : Bool) (num den : Nat) : Decimal :=
  ⟨negative, onGrid (- Int.ofNat places) num den, - Int.ofNat places⟩

/-- Round to `count` significant figures; a carry into a new figure drops the last zero. -/
def toSignificant (count : Nat) (negative : Bool) (num den : Nat) : Decimal :=
  if num = 0 then ⟨negative, 0, 1 - Int.ofNat count⟩
  else
    let exponent := leading num den - Int.ofNat count + 1
    let digits := onGrid exponent num den
    if digits = Nat.pow 10 count then ⟨negative, Nat.pow 10 (count - 1), exponent + 1⟩
    else ⟨negative, digits, exponent⟩

/-- A positive quotient to more than eight hundred figures. The last one is odd unless the quotient
ends before it, so that no point half way between two doubles is met by accident. -/
def ofQuotient (negative : Bool) (num den : Nat) : Decimal :=
  let places := 800 + (Nat.toDigits 10 den).length
  let scaled := num * Nat.pow 10 places
  ⟨negative, 10 * (scaled / den) + (if scaled % den = 0 then 0 else 1), -Int.ofNat (places + 1)⟩

end Geodescent.Decimal
