import Geodescent.Decimal.Shortest

/-!
How a number is written. `standard` writes the shortest decimal that reads back, positional from
`1e-4` below `1e16` and always with a point; `general` writes a number of significant figures
without trailing zeros; `fixed` a number of places. An exponent has a sign and two figures or more.
-/
namespace Geodescent.Decimal

def trimZeros (figures : List Char) : List Char := (figures.reverse.dropWhile (· == '0')).reverse

def positional (d : Decimal) : List Char × List Char :=
  if 0 ≤ d.exponent then (d.figures ++ List.replicate d.exponent.toNat '0', [])
  else
    let places := (-d.exponent).toNat
    let padded := List.replicate (places + 1 - d.figures.length) '0' ++ d.figures
    padded.splitAt (padded.length - places)

def scientific (d : Decimal) : List Char × List Char := d.figures.splitAt 1

def sign (negative : Bool) : String := if negative then "-" else ""

def pointed (whole fraction : List Char) : String :=
  String.ofList whole ++ if fraction.isEmpty then "" else "." ++ String.ofList fraction

def exponentText (width : Nat) (k : Int) : String :=
  let figures := Nat.toDigits 10 k.natAbs
  (if k < 0 then "e-" else "e+") ++
    String.ofList (List.replicate (width - figures.length) '0' ++ figures)

def infinityText (negative : Bool) : String := sign negative ++ "inf"

def standard : Expansion → String
  | .nan => "nan"
  | .infinite negative => infinityText negative
  | .finite negative m e =>
    let d := shortest negative m e
    let k := d.magnitude
    if -4 ≤ k ∧ k < 16 then
      let (whole, fraction) := d.positional
      sign negative ++ pointed whole (if fraction.isEmpty then ['0'] else fraction)
    else
      let (first, rest) := d.scientific
      sign negative ++ pointed first (trimZeros rest) ++ exponentText 2 k

/-- `count` significant figures, trailing zeros dropped. -/
def general (count : Nat) : Expansion → String
  | .nan => "nan"
  | .infinite negative => infinityText negative
  | .finite negative m e =>
    let (num, den) := Expansion.quotient m e
    let d := toSignificant count negative num den
    let k := d.magnitude
    if m = 0 then sign negative ++ "0"
    else if -4 ≤ k ∧ k < Int.ofNat count then
      let (whole, fraction) := d.positional
      sign negative ++ pointed whole (trimZeros fraction)
    else
      let (first, rest) := d.scientific
      sign negative ++ pointed first (trimZeros rest) ++ exponentText 2 k

def fixed (places : Nat) : Expansion → String
  | .nan => "nan"
  | .infinite negative => infinityText negative
  | .finite negative m e =>
    let (num, den) := Expansion.quotient m e
    let (whole, fraction) := (toPlaces places negative num den).positional
    sign negative ++ pointed whole fraction

end Geodescent.Decimal
