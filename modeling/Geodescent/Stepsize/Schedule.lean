import Geodescent.Parameter

/-!
Step lengths that follow a formula: `(length - k · subtrahend) · factor ^ k / k ^ exponent`. Powers
of finite scalars that lie beyond all of them are refused. Iterations before the first count as the
first.
-/
namespace Geodescent

structure Schedule (α : Type) where
  length : α
  factor : α
  subtrahend : α
  exponent : α

namespace Schedule
variable {α : Type} [Scalar α]

def make (length factor subtrahend exponent : Datum α) : Answer α (Schedule α) := do
  let length ← Parameter.number "length" .positive length
  let factor ← Parameter.number "factor" .positive factor
  let subtrahend ← Parameter.number "subtrahend" .nonnegative subtrahend
  let exponent ← Parameter.number "exponent" .nonnegative exponent
  .ok ⟨length, factor, subtrahend, exponent⟩

def lengthWith (power : α → α → Except Refusal α) (s : Schedule α) (k : Number α) :
    Except Refusal α := do
  let n ← k.toReal
  let growth ← power s.factor n
  let decay ← power n s.exponent
  .ok ((s.length - n * s.subtrahend) * growth / decay)

def lengthAt (s : Schedule α) : Number α → Except Refusal α := lengthWith Number.power s

/-- The step length for an array of one entry, whose powers are never refused. -/
def lengthFor (s : Schedule α) : Number α → Except Refusal α :=
  lengthWith (fun base exponent => .ok (Scalar.pow base exponent)) s

def value (s : Schedule α) (iteration : Datum α) : Except Refusal (Datum α) := do
  let k ← iteration.compared
  if k.lt (.whole 1) then (s.lengthAt (.whole 1)).map .real
  else
    match iteration with
    | .array v => (s.lengthFor k).map fun step => .array ⟨v.shape, .real [step]⟩
    | _ => (s.lengthAt k).map .real

def harmonic (length : Datum α) : Answer α (Schedule α) :=
  make length (.real 1) (.real 0) (.real 1)

end Schedule
end Geodescent
