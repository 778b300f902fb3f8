import Geodescent.Manifold.Basic

/-!
When an action acts: in the iterations that a positive number divides, or once when the run stops.
-/
namespace Geodescent

structure Cadence where
  every : Nat
  atStop : Bool
  every_pos : 0 < every

namespace Cadence

def always : Cadence := ⟨1, false, Nat.one_pos⟩

def onlyAtStop : Cadence := ⟨1, true, Nat.one_pos⟩

def make {α : Type} (every : Datum α) (atStop : Bool) : Answer α Cadence :=
  match every with
  | .whole n =>
    if h : 0 < n.toNat then .ok ⟨n.toNat, atStop, h⟩ else .error (.misuse (.badCadence every))
  | d => .error (.misuse (.badCadence d))

def acts (c : Cadence) (iteration : Int) (stopped : Bool) : Bool :=
  if c.atStop || stopped then c.atStop && stopped else iteration % Int.ofNat c.every == 0

theorem acts_stopped (c : Cadence) (iteration : Int) : c.acts iteration true = c.atStop := by
  cases c with | mk every atStop pos => cases atStop <;> simp [acts]

theorem acts_running (c : Cadence) (iteration : Int) :
    c.acts iteration false = true ↔ c.atStop = false ∧ (c.every : Int) ∣ iteration := by
  obtain ⟨every, atStop, pos⟩ := c
  cases atStop with
  | true => simp [acts]
  | false =>
    have h : acts ⟨every, false, pos⟩ iteration false = (iteration % (every : Int) == 0) := rfl
    rw [h, beq_iff_eq, ← Int.dvd_iff_emod_eq_zero]
    exact ⟨fun d => ⟨rfl, d⟩, fun d => d.2⟩

def written (c : Cadence) : String :=
  "Cadence(every=" ++ toString c.every ++ ", at_stop=" ++ (if c.atStop then "True" else "False") ++
    ")"

end Cadence
end Geodescent
