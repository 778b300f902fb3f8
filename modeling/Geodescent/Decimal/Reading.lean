import Geodescent.Decimal.Expansion
import Geodescent.Text.Blank

/-!
Reading a number from text: a sign, then `inf`, `infinity` or `nan` in any case, or figures with at
most one point and an exponent. Blanks around the number are skipped and a single low line may stand
between two figures.
-/
namespace Geodescent

inductive Numeral where
  | nan
  | infinite (negative : Bool)
  | decimal (d : Decimal)
deriving DecidableEq

namespace Numeral
open Text

/-- Remove the low lines, all of which stand between two figures. -/
def joinFigures? : Option Char → List Char → Option (List Char)
  | last, [] => if last = some '_' then none else some []
  | last, c :: rest =>
    if c = '_' then
      match last with
      | some d => if (figure? d).isSome then joinFigures? (some '_') rest else none
      | none => none
    else if last = some '_' && (figure? c).isNone then none
    else (joinFigures? (some c) rest).map (c :: ·)

def figures : List Char → List Nat × List Char
  | [] => ([], [])
  | c :: rest =>
    match figure? c with
    | some d => let (ds, after) := figures rest; (d :: ds, after)
    | none => ([], c :: rest)

def value (ds : List Nat) : Nat := ds.foldl (fun n d => 10 * n + d) 0

def signed : List Char → Bool × List Char
  | '-' :: rest => (true, rest)
  | '+' :: rest => (false, rest)
  | text => (false, text)

def exponent? : List Char → Option Int
  | [] => some 0
  | c :: rest =>
    if c = 'e' || c = 'E' then
      let (negative, body) := signed rest
      match figures body with
      | ([], _) => none
      | (ds, []) => some (if negative then -Int.ofNat (value ds) else Int.ofNat (value ds))
      | _ => none
    else none

def magnitude? (negative : Bool) (text : List Char) : Option Numeral :=
  let (whole, afterWhole) := figures text
  let (fraction, rest) :=
    match afterWhole with
    | '.' :: more => figures more
    | _ => ([], afterWhole)
  if whole.isEmpty && fraction.isEmpty then none
  else (exponent? rest).map fun e =>
    .decimal ⟨negative, value (whole ++ fraction), e - Int.ofNat fraction.length⟩

def read? (text : List Char) : Option Numeral := do
  let joined ← joinFigures? none (trimBlanks text)
  let (negative, body) := signed joined
  let word := body.map Char.toLower
  if word = ['i', 'n', 'f'] || word = ['i', 'n', 'f', 'i', 'n', 'i', 't', 'y'] then
    some (.infinite negative)
  else if word = ['n', 'a', 'n'] then some .nan
  else magnitude? negative body

end Numeral
end Geodescent
