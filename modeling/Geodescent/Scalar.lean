import Geodescent.Decimal.Reading
import Geodescent.Decimal.Printed

/-!
The numbers that points and vectors are made of. A scalar type has arithmetic, an order given by
tests, the functions that the geometry needs and a way to be taken apart for printing; doubles are
one instance. The tests answer `false` on values that are no number. Arrays flush: a result too
small for full precision becomes zero, which `plus`, `minus`, `times` and `quotient` do and the
plain operations leave out.
-/
namespace Geodescent

class Scalar (α : Type) extends Zero α, One α, Add α, Sub α, Mul α, Div α, Neg α where
  /-- The scalar nearest to a whole number. -/
  ofInt : Int → α
  /-- The scalar nearest to a decimal. -/
  ofDecimal : Decimal → α
  nan : α
  infinity : α
  sqrt : α → α
  sin : α → α
  cos : α → α
  arcsin : α → α
  pow : α → α → α
  /-- What arrays keep of a scalar: one too small for full precision becomes a zero of its sign. -/
  flush : α → α
  lt : α → α → Bool
  le : α → α → Bool
  eq : α → α → Bool
  isFinite : α → Bool
  isNaN : α → Bool
  expansion : α → Expansion

/-- The double nearest to a decimal; beyond four hundred figures on either side it is settled. -/
def Decimal.toFloat (d : Decimal) : Float :=
  let k := d.magnitude
  let size : Float :=
    if d.digits = 0 || k < -400 then 0
    else if 400 < k then 1 / 0
    else if 0 ≤ d.exponent then Float.ofScientific d.digits false d.exponent.toNat
    else Float.ofScientific d.digits true (-d.exponent).toNat
  if d.negative then -size else size

instance : Scalar Float where
  zero := 0
  one := 1
  ofInt := Float.ofInt
  ofDecimal := Decimal.toFloat
  nan := 0 / 0
  infinity := 1 / 0
  sqrt := Float.sqrt
  sin := Float.sin
  cos := Float.cos
  arcsin := Float.asin
  pow := Float.pow
  flush x := if x.abs < 2.2250738585072014e-308 then x * 0 else x
  lt x y := x < y
  le x y := x ≤ y
  eq x y := x == y
  isFinite := Float.isFinite
  isNaN := Float.isNaN
  expansion := Expansion.ofFloat

namespace Scalar
variable {α : Type} [Scalar α]

def two : α := ofInt 2

def ofNumeral : Numeral → α
  | .nan => nan
  | .infinite negative => if negative then -infinity else infinity
  | .decimal d => ofDecimal d

def ofInt? (n : Int) : Option α :=
  let x : α := ofInt n
  if isFinite x then some x else none

/-- The larger of two scalars; a value that is no number wins. -/
def maximum (x y : α) : α :=
  if isNaN x then x else if isNaN y then y else if lt x y then y else x

def minimum (x y : α) : α :=
  if isNaN x then x else if isNaN y then y else if lt y x then y else x

def magnitude (x : α) : α := if lt x 0 then -x else if eq x 0 then 0 else x

def plus (x y : α) : α := flush (x + y)

def minus (x y : α) : α := flush (x - y)

def times (x y : α) : α := flush (x * y)

def quotient (x y : α) : α := flush (x / y)

def squareAndMultiply (start x : α) (k : Nat) : α :=
  if k = 0 then start
  else squareAndMultiply (if k % 2 = 1 then times start x else start) (times x x) (k / 2)
termination_by k
decreasing_by omega

def wholePower (x : α) (k : Int) : α :=
  let p := squareAndMultiply 1 x k.natAbs
  if k < 0 then quotient 1 p else p

/-- The sum of scalars; a single one is its own sum, so it keeps its sign. -/
def sum : List α → α
  | [x] => x
  | xs => xs.foldl plus 0

def dot (xs ys : List α) : α := sum (List.zipWith times xs ys)

/-- The Euclidean length; a single scalar is its own length but for the sign, however large or small
its square is. -/
def norm : List α → α
  | [x] => magnitude x
  | xs => sqrt (sum (xs.map fun x => times x x))

def standard (x : α) : String := Decimal.standard (expansion x)

def brief (x : α) : String := Decimal.general 6 (expansion x)

def thousandths (x : α) : String := Decimal.fixed 3 (expansion x)

end Scalar
end Geodescent
