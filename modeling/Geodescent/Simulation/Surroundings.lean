import Geodescent.Manifold.Sampling
import Geodescent.Store
import Geodescent.Chronicle

/-!
Surroundings that are written down in advance: a clock that stands still until it is moved, flags,
counters of calls, a finite supply of normal samples that is used over and over, and notes of what
oracles and observers have seen.
-/
namespace Geodescent

structure Surroundings (α : Type) where
  clock : α
  flags : List (String × Datum α)
  calls : Store Nat
  seen : Chronicle (Datum α)
  trace : Chronicle (Datum α)
  samples : List α
  cursor : Nat

namespace Surroundings
variable {α : Type}

def start [Scalar α] : Surroundings α := ⟨0, [], .empty, .empty, .empty, [], 0⟩

def flag (name : String) (s : Surroundings α) : Datum α := (s.flags.lookup name).getD (.truth false)

def setFlag (name : String) (d : Datum α) (s : Surroundings α) : Surroundings α :=
  { s with flags := (name, d) :: s.flags }

def count (id : Nat) : Asking (Surroundings α) α Nat := do
  let s ← get
  let n := s.calls.get id + 1
  set { s with calls := s.calls.set id n }
  pure n

def note (d : Datum α) : Asking (Surroundings α) α Unit :=
  modify fun s => { s with seen := s.seen.push d }

/-- The next samples, starting over at the end of the supply. -/
def draw [Scalar α] (n : Nat) : Asking (Surroundings α) α (List α) := do
  let s ← get
  let supply := s.samples
  set { s with cursor := s.cursor + n }
  pure ((List.range n).map fun i => (supply[(s.cursor + i) % supply.length]?).getD 0)

end Surroundings
end Geodescent
