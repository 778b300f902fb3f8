import Geodescent.Proofs.Transcript
import Geodescent.Solver.Sweep

/-! The calls that a sweep makes of the proximal maps. `Narrated.sweepStep` is the step of the solver
with a list of these calls, `outcome_sweepStep` says that it is the step. -/
namespace Geodescent.Solver
variable {ε α : Type} [Scalar α]

/-- A call of a proximal map, with the surroundings it was made in and what became of it. -/
structure Application (ε α : Type) where
  map : ProximalMap ε α
  parameter : Datum α
  point : Point α
  before : ε
  outcome : EStateM.Result (Fault α) ε (Point α)

namespace Narrated

def applyMaps (M : Manifold α) (weight : α) : List (ProximalMap ε α) → Point α →
    Scribe (Application ε α) (Fault α) ε (Point α)
  | [], x => pure x
  | f :: fs, x => do
    let y ← Scribe.entering (fun env r => ⟨f, .real weight, x, env, r⟩) (f M (.real weight) x)
    applyMaps M weight fs y

def weightOf (step : α) (maps : List (ProximalMap ε α)) : α :=
  step / Scalar.ofInt (Int.ofNat maps.length)

def sweepStep (settings : Settings α) (p : Problem ε α) (o : Options ε α) (k : Int) :
    Scribe (Application ε α) (Fault α) (Stepping ε α) Unit := do
  let step ← Scribe.tacit (nextStep settings p o k false)
  let maps ← Scribe.tacit (settled p.maps)
  let s ← Scribe.tacit get
  let y ← Scribe.within (Stepping.surroundings ε α)
    (applyMaps p.manifold (weightOf step maps) maps s.position.x)
  Scribe.tacit (modify (Stepping.place (·.moveTo y)))

end Narrated

omit [Scalar α] in
theorem outcome_applyMaps (M : Manifold α) (weight : α) (fs : List (ProximalMap ε α))
    (x : Point α) :
    (Narrated.applyMaps M weight fs x).outcome = applyMaps M weight fs x := by
  induction fs generalizing x with
  | nil => rfl
  | cons f fs ih =>
    rw [Narrated.applyMaps, applyMaps, Scribe.outcome_bind, Scribe.outcome_entering]
    simp only [ih]

theorem outcome_sweepStep (settings : Settings α) (p : Problem ε α) (o : Options ε α) (k : Int) :
    (Narrated.sweepStep settings p o k).outcome = sweep.step settings p o k := by
  simp only [Narrated.sweepStep, sweep, Narrated.weightOf, Scribe.outcome_bind,
    Scribe.outcome_tacit, Scribe.outcome_within, outcome_applyMaps]

/-- Calls that begin at `x`, each go on from what the one before answered, and end at `y`. -/
def Relay : Point α → List (Application ε α) → Point α → Prop
  | x, [], y => x = y
  | x, a :: as, y => a.point = x ∧ ∃ z env, a.outcome = .ok z env ∧ Relay z as y

def Application.Genuine (M : Manifold α) (a : Application ε α) : Prop :=
  a.outcome = a.map M a.parameter a.point a.before

section ApplyMaps
variable {M : Manifold α} {weight : α} {fs : List (ProximalMap ε α)} {x y : Point α}
  {env env' : ε} {as : List (Application ε α)}

omit [Scalar α] in
theorem leads_applyMaps (M : Manifold α) (weight : α) (fs : List (ProximalMap ε α)) (x : Point α) :
    Scribe.Leads (Narrated.applyMaps M weight fs x) (fun _ => True)
      (fun a => a.parameter = .real weight ∧ a.Genuine M) fun _ => True := by
  induction fs generalizing x with
  | nil => exact .pure x
  | cons f fs ih =>
    refine .bind ?_ fun y => ih y
    exact .entering (fun env _ => ⟨rfl, rfl⟩) fun _ _ _ _ _ => trivial

omit [Scalar α] in
theorem applyMaps_ok (h : Narrated.applyMaps M weight fs x env = (as, .ok y env')) :
    as.map Application.map = fs ∧ Relay x as y := by
  induction fs generalizing x env as with
  | nil =>
    rw [Narrated.applyMaps] at h
    obtain ⟨rfl, rfl, rfl⟩ := Scribe.pure_eq_ok_iff.mp h
    exact ⟨rfl, rfl⟩
  | cons f fs ih =>
    rw [Narrated.applyMaps] at h
    obtain ⟨z, env₁, bs, cs, hf, hrest, rfl⟩ := Scribe.bind_eq_ok_iff.mp h
    obtain ⟨hcall, rfl⟩ := Scribe.entering_eq_ok_iff.mp hf
    obtain ⟨hmaps, hrelay⟩ := ih hrest
    exact ⟨congrArg (f :: ·) hmaps, rfl, z, env₁, rfl, hrelay⟩

end ApplyMaps
end Geodescent.Solver
