import Geodescent.Proofs.Run.Raised
import Geodescent.Proofs.Sweep.Law

/-! Sweeps that fail on the way. What the maps have answered before one of them fails is withheld: the
run ends at the point that the sweep before has left, and only the step length may be that of the
failed sweep: `withheld_law`. -/
namespace Geodescent.Solver
variable {ε α : Type} [Scalar α] {p : Problem ε α} {o : Options ε α} {fs : List (ProximalMap ε α)}

open Narrated (weightOf)

section ApplyMaps
variable {M : Manifold α} {weight : α} {x : Point α} {env env' : ε} {e : Fault α}
  {as : List (Application ε α)}

omit [Scalar α] in
theorem applyMaps_error (h : Narrated.applyMaps M weight fs x env = (as, .error e env')) :
    as.map Application.map <+: fs ∧ ∃ pre a, as = pre ++ [a] ∧ Relay x pre a.point ∧
      a.outcome = .error e env' := by
  induction fs generalizing x env as with
  | nil =>
    rw [Narrated.applyMaps] at h
    cases (Prod.mk.inj h).2
  | cons f fs ih =>
    rw [Narrated.applyMaps] at h
    rcases Scribe.bind_eq_error_iff.mp h with hf | ⟨z, env₁, bs, cs, hf, hrest, rfl⟩
    · -- the first map fails, and no other one is called
      obtain ⟨hcall, hfails⟩ := Prod.mk.inj hf
      rw [← hcall]
      exact ⟨List.prefix_append [f] fs, [], _, rfl, rfl, hfails⟩
    · obtain ⟨hanswers, rfl⟩ := Scribe.entering_eq_ok_iff.mp hf
      obtain ⟨hmaps, pre, a, rfl, hrelay, hfails⟩ := ih hrest
      refine ⟨List.prefix_cons_inj f |>.mpr hmaps, ⟨f, .real weight, x, env, .ok z env₁⟩ :: pre, a,
        rfl, ⟨rfl, z, env₁, rfl, hrelay⟩, hfails⟩

end ApplyMaps

/-- A sweep from the position `old` for the given step that one of the maps ends with the fault `e`:
the maps before it have been called one after the other, each for its share of the step. -/
structure Torn (p : Problem ε α) (fs : List (ProximalMap ε α)) (old : Position α) (step : α)
    (as : List (Application ε α)) (e : Fault α) : Prop where
  maps : as.map Application.map <+: fs
  shared : ∀ a ∈ as, a.parameter = .real (weightOf step fs)
  genuine : ∀ a ∈ as, a.Genuine p.manifold
  cut : ∃ pre a env, as = pre ++ [a] ∧ Relay old.x pre a.point ∧ a.outcome = .error e env

/-- What a failed sweep `k` from the session part `s` leaves of the position: all of it where no step
was found, and all but the step length where a map has failed. -/
inductive Withheld (p : Problem ε α) (o : Options ε α) (fs : List (ProximalMap ε α))
    (settings : Settings α) (k : Int) (s : Stepping ε α) (as : List (Application ε α))
    (e : Fault α) (new : Position α) : Prop
  | length (fails : RuleRaises p o settings k false s e) (idle : as = [])
      (kept : new = s.position) : Withheld p o fs settings k s as e new
  | map {answer : Datum α} {w : Workshop ε} {step : α}
      (ruled : o.stepsize.next settings p s.position (.whole k) ⟨s.env, s.journal⟩ = .ok answer w)
      (checked : Stepsize.check answer k false = .ok step) (torn : Torn p fs s.position step as e)
      (noted : new = { s.position with lastStepsize := .real step }) :
      Withheld p o fs settings k s as e new

theorem Withheld.x {settings : Settings α} {k : Int} {s : Stepping ε α}
    {as : List (Application ε α)} {e : Fault α} {new : Position α}
    (h : Withheld p o fs settings k s as e new) : new.x = s.position.x := by
  cases h with
  | length fails idle kept => rw [kept]
  | map ruled checked torn noted => rw [noted]

section Step
variable {settings : Settings α} {k : Int} {s t : Stepping ε α} {as : List (Application ε α)}
  {e : Fault α}

theorem sweepStep_error (hp : p.maps = .ok fs)
    (h : Narrated.sweepStep settings p o k s = (as, .error e t)) :
    Withheld p o fs settings k s as e t.position := by
  rcases Scribe.tacit_bind_eq_error_iff.mp h with ⟨hnext, rfl⟩ | ⟨step, u, hnext, h₁⟩
  · obtain ⟨hposition, hraises⟩ := nextStep_error hnext
    exact .length hraises rfl hposition
  obtain ⟨answer, w, hrule, hcheck, rfl⟩ := nextStep_ok hnext
  rcases Scribe.tacit_bind_eq_error_iff.mp h₁ with ⟨hmaps, -⟩ | ⟨maps, u, hmaps, h₂⟩
  · cases hp.symm.trans (settled_eq_error_iff.mp hmaps).1
  obtain ⟨hfs, rfl⟩ := settled_eq_ok_iff.mp hmaps
  cases hp.symm.trans hfs
  rw [Scribe.tacit_get_bind] at h₂
  -- the new point is written last, and only if all maps have answered
  rcases Scribe.bind_eq_error_iff.mp h₂ with hwithin | ⟨y, u, bs, cs, -, hplace, -⟩
  · obtain ⟨env, happly, rfl⟩ := Scribe.within_eq_error_iff.mp hwithin
    obtain ⟨hmaps, pre, a, has, hrelay, hfails⟩ := applyMaps_error happly
    have hcalls := (leads_applyMaps p.manifold (weightOf step fs) fs s.position.x).entries trivial
      happly
    exact .map hrule hcheck ⟨hmaps, fun a ha => (hcalls a ha).1, fun a ha => (hcalls a ha).2, pre,
      a, env, has, hrelay, hfails⟩ rfl
  · cases (Prod.mk.inj hplace).2

end Step

section Runs
variable {chain : List (Decorator ε α)} {s₁ : Session ε α} {v : Visit ε α} {x : Nat → Point α}
  {change : Nat → α} {n : Nat} {vs : List (Visit ε α)}

omit [Scalar α] in
theorem stepNumbers_callsUntil (chain : List (Decorator ε α)) (n : Nat) :
    (callsUntil chain n).filterMap Call.stepNumber? = List.range' 1 n := by
  rw [callsUntil, List.filterMap_cons_none rfl, List.filterMap_append, stepNumbers_hooks,
    List.nil_append, List.filterMap_cons_none rfl]
  exact stepNumbers_rounds chain n

theorem Interrupted.sweeps (h : Interrupted p o chain x change s₁ vs n v) (hp : p.maps = .ok fs)
    (performed : ∀ u ∈ vs, u.outcome = u.call.perform p o sweep u.before) :
    Sweeps p o fs 0 s₁.state.position (vs.flatMap (Visit.applications p o)) n
      v.before.state.position := by
  have numbered : (vs.map Visit.call).filterMap Call.stepNumber? = List.range' (0 + 1) n := by
    rw [h.calls]
    exact stepNumbers_callsUntil chain n
  have key := sweeps_of_linked hp h.linked performed numbered
  rw [Nat.zero_add] at key
  exact key

theorem withheld_of_failed {k : Nat} {e : Fault α} {t : Session ε α} (hp : p.maps = .ok fs)
    (hfailed : v.Failed k e t) (performed : v.outcome = v.call.perform p o sweep v.before) :
    Withheld p o fs v.before.settings k ((Session.stepping ε α).get v.before)
      (v.applications p o) e t.state.position := by
  rw [hfailed.outcome, hfailed.call] at performed
  obtain ⟨u, hstep, rfl⟩ := perform_step_error performed.symm
  rw [← outcome_sweepStep] at hstep
  have happs : (Narrated.sweepStep v.before.settings p o k
      ((Session.stepping ε α).get v.before)).1 = v.applications p o := by
    rw [Visit.applications, hfailed.call]
  exact sweepStep_error hp (Prod.ext happs hstep)

end Runs

/-- The law of failed sweeps. A sweep fails when something that it calls fails, and the run fails as it
does. Everything before has been whole sweeps, and the point that the last of them has left is the
point at which the run ends; the step length is that of the failed sweep if a map has failed, and
else as it was. -/
theorem withheld_law {M : Option (Manifold α)} {cost : Candidate α (Cost ε α)}
    {chain : List (Decorator ε α)}
    (made : Problem.withProximalMaps M cost (.sequence (fs.map .callable)) = .ok p) (fuel : Nat)
    (s : Session ε α) :
    ∀ v ∈ history fuel p o chain sweep s, ∀ k, v.call = .step k → ∀ e,
      (SweepRaises p o v.before.settings k ((Session.stepping ε α).get v.before) e ↔
        ∃ t, v.outcome = .error e t) ∧
      ∀ t, v.outcome = .error e t → solve fuel p o chain sweep s = .error e t ∧
        ∃ s₁ n as, validate p s = .ok () s₁ ∧ k = n + 1 ∧
          Sweeps p o fs 0 s₁.state.position as n v.before.state.position ∧
          applications fuel p o chain s = as ++ v.applications p o ∧
          t.state.x = v.before.state.x ∧
          Withheld p o fs v.before.settings k ((Session.stepping ε α).get v.before)
            (v.applications p o) e t.state.position := by
  intro v hv k hk e
  obtain ⟨hp, -⟩ := maps_of_made made
  have performed := outcome_of_mem_history hv
  constructor
  · rw [performed, hk, perform_error_iff]
    exact sweep_step_error_iff.symm
  · intro t ht
    have hfailed : v.Failed k e t := ⟨hk, ht⟩
    obtain ⟨s₁, n, x, change, vs, hvalid, rfl, hsolve, interrupted⟩ := solve_of_failed hv hfailed
    have hhistory : history fuel p o chain sweep s = vs ++ [v] := congrArg Prod.fst hsolve
    have hran : ∀ u ∈ vs, u.outcome = u.call.perform p o sweep u.before := fun u hu =>
      outcome_of_mem_history (hhistory ▸ List.mem_append_left [v] hu)
    have withheld := withheld_of_failed hp hfailed performed
    refine ⟨?_, s₁, n, _, hvalid, rfl, interrupted.sweeps hp hran, ?_, withheld.x, withheld⟩
    · rw [← outcome_solve, Scribe.outcome, hsolve]
    · rw [applications, hhistory, List.flatMap_append, List.flatMap_singleton]

def brittle : ProximalMap Unit Float := fun _ l x =>
  match l.toReal with
  | .ok weight => if Scalar.lt 1 weight then throw (.oracle "too much at once") else pure x
  | .error _ => pure x

def pushAndCrack : List (ProximalMap Unit Float) :=
  [Simulation.shifting (.array ⟨[1], .whole [3]⟩), brittle]

def cracking : Problem Unit Float :=
  ⟨Manifold.euclideanOf (.whole 1), Simulation.quadratic 1, .proximal pushAndCrack⟩

def quickening : Options Unit Float :=
  ⟨.sweep Flavour.standardOrder, .atom 0 (.cap 3), .custom "Quickening" "Quickening()" fun _ k =>
    settled (refusing ((Datum.real 2).mul k))⟩

theorem withheld_law_cracking : ∃ v ∈ history 3 cracking quickening [] sweep lineStart, ∃ t,
    solve 3 cracking quickening [] sweep lineStart = .error (.oracle "too much at once") t ∧
      v.call = .step 2 ∧ (v.applications cracking quickening).length = 2 ∧
      t.state.x = v.before.state.x ∧ t.state.position.lastStepsize = .real 4 := by
  have made : Problem.withProximalMaps (some cracking.manifold) (.callable cracking.cost)
      (.sequence (pushAndCrack.map .callable)) = .ok cracking := rfl
  obtain ⟨v, hv, hk, hlength, e, t, ht, rfl, hstep⟩ :
      ∃ v ∈ history 3 cracking quickening [] sweep lineStart, v.call = .step 2 ∧
        (v.applications cracking quickening).length = 2 ∧
        ∃ e t, v.outcome = .error e t ∧ e = .oracle "too much at once" ∧
          t.state.position.lastStepsize = .real 4 := by
    decide +kernel
  obtain ⟨hsolve, _, _, _, -, -, -, -, hx, -⟩ := (withheld_law made 3 lineStart v hv 2 hk _).2 t ht
  exact ⟨v, hv, t, hsolve, hk, hlength, hx, hstep⟩

end Geodescent.Solver
