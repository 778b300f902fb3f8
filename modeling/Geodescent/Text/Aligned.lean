import Geodescent.Decimal.Printed

/-!
Numbers that stand side by side: texts of one width with a bounded number of figures after the
point. All of them are in exponent form when the magnitudes are too large, too small or too far
apart. Whole numbers and truth values are aligned on the right.
-/
namespace Geodescent.Text
open Decimal

/-- The shortest decimal that reads back, or the nearest one on the grid of `10 ^ lowest` when that
has fewer figures. -/
def cutAt (lowest : Int) (negative : Bool) (m : Nat) (e : Int) : Decimal :=
  let d := shortest negative m e
  if lowest ≤ d.exponent then d
  else
    let (num, den) := Expansion.quotient m e
    ⟨negative, onGrid lowest num den, lowest⟩

def plainParts (places : Nat) (negative : Bool) (m : Nat) (e : Int) : String × List Char :=
  let (whole, fraction) := (cutAt (-Int.ofNat places) negative m e).positional
  (sign negative ++ String.ofList whole, trimZeros fraction)

def exponentParts (places : Nat) (negative : Bool) (m : Nat) (e : Int) :
    String × List Char × Int :=
  let (num, den) := Expansion.quotient m e
  if m = 0 then (sign negative ++ "0", [], 0)
  else
    let top := leading num den
    let d := cutAt (top - Int.ofNat places) negative m e
    let (first, rest) := d.scientific
    (sign negative ++ String.ofList first, (trimZeros rest).take places, d.magnitude)

def finiteParts : Expansion → Option (Bool × Nat × Int)
  | .finite negative m e => some (negative, m, e)
  | _ => none

def atMost (a b : Nat × Int) : Bool :=
  let (n, d) := Expansion.quotient a.1 a.2
  let (n', d') := Expansion.quotient b.1 b.2
  n * d' ≤ n' * d

def largest (a b : Nat × Int) : Nat × Int := if atMost a b then b else a

def smallest (a b : Nat × Int) : Nat × Int := if atMost a b then a else b

/-- Exponent form is used from `1e8` on, below `1e-4`, and when the quotient of the largest and the
smallest magnitude is, rounded to a double, more than a thousand. -/
def wantsExponents (magnitudes : List (Nat × Int)) : Bool :=
  match magnitudes with
  | [] => false
  | first :: rest =>
    let high := rest.foldl largest first
    let low := rest.foldl smallest first
    let (n, d) := Expansion.quotient high.1 high.2
    let (n', d') := Expansion.quotient low.1 low.2
    let unit := Nat.pow 2 44
    100000000 * d ≤ n || n' * 10000 < d' || (1000 * unit + 1) * n' * d < n * d' * unit

def padLeft (width : Nat) (text : String) : String :=
  String.ofList (List.replicate (width - text.length) ' ') ++ text

def padRight (width : Nat) (figures : List Char) : String :=
  String.ofList (figures ++ List.replicate (width - figures.length) ' ')

def greatest (ns : List Nat) : Nat := ns.foldl max 0

def specialText : Expansion → String
  | .nan => "nan"
  | .infinite negative => infinityText negative
  | .finite .. => ""

def widen (shown : List Expansion) (left right : Nat) : Nat :=
  if shown.all fun x => (finiteParts x).isSome then left
  else
    let room := if shown.contains (.infinite true) then 4 else 3
    max left (room - (right + 1))

def exponentWords (places : Nat) (shown : List Expansion) : List String :=
  let parts := (shown.filterMap finiteParts).map fun (negative, m, e) =>
    exponentParts places negative m e
  let figures := greatest (parts.map fun p => p.2.1.length)
  let width := max 2 (greatest (parts.map fun p => (Nat.toDigits 10 p.2.2.natAbs).length))
  let right := width + 2 + figures
  let left := widen shown (greatest (parts.map fun p => p.1.length)) right
  shown.map fun x =>
    match x with
    | .finite negative m e =>
      let (first, rest, k) := exponentParts figures negative m e
      padLeft left first ++ "." ++
        String.ofList (rest ++ List.replicate (figures - rest.length) '0') ++ exponentText width k
    | x => padLeft (left + right + 1) (specialText x)

def plainWords (places : Nat) (shown : List Expansion) : List String :=
  let parts := (shown.filterMap finiteParts).map fun (negative, m, e) =>
    plainParts places negative m e
  let right := greatest (parts.map fun p => p.2.length)
  let left := widen shown (greatest (parts.map fun p => p.1.length)) right
  shown.map fun x =>
    match x with
    | .finite negative m e =>
      let (whole, fraction) := plainParts places negative m e
      padLeft left whole ++ "." ++ padRight right fraction
    | x => padLeft (left + right + 1) (specialText x)

def numberWords (places : Nat) (shown : List Expansion) : List String :=
  let magnitudes := (shown.filterMap finiteParts).filterMap fun (_, m, e) =>
    if m = 0 then none else some (m, e)
  if wantsExponents magnitudes then exponentWords places shown else plainWords places shown

def wholeWords (shown : List Int) : List String :=
  let width := greatest (shown.map fun n => (toString n).length)
  shown.map fun n => padLeft width (toString n)

def truthWord (b : Bool) : String := if b then "True" else "False"

def truthWords (shown : List Bool) : List String := shown.map fun b => padLeft 5 (truthWord b)

end Geodescent.Text
