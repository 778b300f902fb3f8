import Geodescent.Decimal.Rounding

/-!
The shortest decimal that reads back as a given double. The reals that round to `m · 2 ^ e` form an
interval, closed when `m` is even; the first decimal grid with a point in that interval gives the
number of figures, and of two points of that grid the nearer one is taken.
-/
namespace Geodescent.Decimal

/-- The reals that round to a double, its value in the middle, over one denominator. -/
structure Basin where
  low : Nat
  middle : Nat
  high : Nat
  denominator : Nat
  closed : Bool

namespace Basin

/-- The neighbour below is half as far where the significand is a power of two. -/
def ofBinary (m : Nat) (e : Int) : Basin :=
  let unit := Nat.pow 2 e.toNat
  let below := if m = Nat.pow 2 52 ∧ -1074 < e then 1 else 2
  { low := (4 * m - below) * unit
    middle := 4 * m * unit
    high := (4 * m + 2) * unit
    denominator := 4 * Nat.pow 2 (-e).toNat
    closed := m % 2 = 0 }

def holds (b : Basin) (num den : Nat) : Bool :=
  let value := num * b.denominator
  if b.closed then b.low * den ≤ value && value ≤ b.high * den
  else b.low * den < value && value < b.high * den

def point? (b : Basin) (exponent : Int) : Option Nat :=
  let up := Nat.pow 10 exponent.toNat
  let down := Nat.pow 10 (-exponent).toNat
  let floor := b.middle * down / (b.denominator * up)
  let near := onGrid exponent b.middle b.denominator
  let far := if near = floor then floor + 1 else floor
  if b.holds (near * up) down then some near
  else if b.holds (far * up) down then some far
  else none

def search (b : Basin) (top : Int) : Nat → Nat → Nat × Int
  | _, 0 => (onGrid (top - 16) b.middle b.denominator, top - 16)
  | count, fuel + 1 =>
    match b.point? (top - Int.ofNat count) with
    | some digits => (digits, top - Int.ofNat count)
    | none => search b top (count + 1) fuel

end Basin

/-- The decimal of fewest figures that reads back as `± m · 2 ^ e`. -/
def shortest (negative : Bool) (m : Nat) (e : Int) : Decimal :=
  if m = 0 then ⟨negative, 0, 0⟩
  else
    let (num, den) := Expansion.quotient m e
    let (digits, exponent) := (Basin.ofBinary m e).search (leading num den) 0 17
    ⟨negative, digits, exponent⟩

end Geodescent.Decimal
