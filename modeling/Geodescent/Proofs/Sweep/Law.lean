import Geodescent.Proofs.Sweep.Exact
import Geodescent.Proofs.Descent.Step
import Geodescent.Proofs.Run.Abort
import Geodescent.Manifold.Euclidean
import Geodescent.Outcome
import Geodescent.Proofs.Sweep.Application
import Geodescent.Simulation.Oracles

/-! The law of sweeps. A sweep calls every map once, in declared order and for an equal share of the
step, each on the result of the one before. -/
namespace Geodescent.Solver
variable {ε α : Type} [Scalar α] {p : Problem ε α} {o : Options ε α} {fs : List (ProximalMap ε α)}

open Narrated (weightOf)

/-- Sweep `k` from one position to another, with its calls of the maps, for the step that the rule
answers. -/
structure Swept (p : Problem ε α) (o : Options ε α) (fs : List (ProximalMap ε α))
    (settings : Settings α) (k : Nat) (w : Workshop ε) (old new : Position α)
    (as : List (Application ε α)) (step : α) : Prop where
  ruled : ∃ answer w', o.stepsize.next settings p old (.whole k) w = .ok answer w' ∧
    answer.toReal = .ok step
  usable : Scalar.isFinite step = true ∧ Scalar.lt step 0 = false ∧ Scalar.eq step 0 = false
  noted : new.lastStepsize = .real step
  maps : as.map Application.map = fs
  shared : ∀ a ∈ as, a.parameter = .real (weightOf step fs)
  genuine : ∀ a ∈ as, a.Genuine p.manifold
  relay : Relay old.x as new.x

section Step
variable {settings : Settings α} {k : Int} {s t : Stepping ε α} {as : List (Application ε α)}
  {answer : Datum α} {w : Workshop ε}

theorem usable_without_zero_iff {step : α} : Stepsize.usable step false = true ↔
    Scalar.isFinite step = true ∧ Scalar.lt step 0 = false ∧ Scalar.eq step 0 = false := by
  simp [Stepsize.usable, and_assoc]

theorem sweepStep_parts (hp : p.maps = .ok fs)
    (h : Narrated.sweepStep settings p o k s = (as, .ok () t)) :
    ∃ answer w step y env, o.stepsize.next settings p s.position (.whole k) ⟨s.env, s.journal⟩ =
        .ok answer w ∧ Stepsize.check answer k false = .ok step ∧
      Narrated.applyMaps p.manifold (weightOf step fs) fs s.position.x w.env = (as, .ok y env) ∧
      t.position = { s.position with x := y, lastStepsize := .real step } := by
  obtain ⟨step, u, hstep, h₁⟩ := Scribe.tacit_bind_eq_ok_iff.mp h
  obtain ⟨answer, w, hrule, hcheck, rfl⟩ := nextStep_ok hstep
  obtain ⟨maps, u, hsettled, h₂⟩ := Scribe.tacit_bind_eq_ok_iff.mp h₁
  obtain ⟨hfs, rfl⟩ := settled_eq_ok_iff.mp hsettled
  rw [hp] at hfs
  cases hfs
  obtain ⟨_, u, hu, h₃⟩ := Scribe.tacit_bind_eq_ok_iff.mp h₂
  cases hu
  obtain ⟨y, u, as', bs, hwithin, h₄, rfl⟩ := Scribe.bind_eq_ok_iff.mp h₃
  obtain ⟨env, happly, rfl⟩ := Scribe.within_eq_ok_iff.mp hwithin
  obtain ⟨hplace, rfl⟩ := Scribe.tacit_eq_ok_iff.mp h₄
  cases hplace
  rw [List.append_nil]
  exact ⟨answer, w, step, y, env, hrule, hcheck, happly, rfl⟩

theorem sweepStep_ok {k : Nat} (hp : p.maps = .ok fs)
    (h : Narrated.sweepStep settings p o k s = (as, .ok () t)) :
    ∃ step, Swept p o fs settings k ⟨s.env, s.journal⟩ s.position t.position as step := by
  obtain ⟨answer, w, step, y, env, hrule, hcheck, happly, ht⟩ := sweepStep_parts hp h
  obtain ⟨hreal, husable⟩ := Stepsize.check_eq_ok_iff.mp hcheck
  obtain ⟨hmaps, hrelay⟩ := applyMaps_ok happly
  have hcalls := (leads_applyMaps p.manifold (weightOf step fs) fs s.position.x).entries trivial
    happly
  rw [ht]
  exact ⟨step, ⟨answer, w, hrule, hreal⟩, usable_without_zero_iff.mp husable, rfl, hmaps,
    fun a ha => (hcalls a ha).1, fun a ha => (hcalls a ha).2, hrelay⟩

theorem sweepStep_calls (hp : p.maps = .ok fs) {a : Application ε α}
    (ha : a ∈ (Narrated.sweepStep settings p o k s).1) :
    ∃ answer w step, o.stepsize.next settings p s.position (.whole k) ⟨s.env, s.journal⟩ =
        .ok answer w ∧ answer.toReal = .ok step ∧ a.parameter = .real (weightOf step fs) := by
  unfold Narrated.sweepStep at ha
  rcases hnext : nextStep settings p o k false s with ⟨step, u⟩ | ⟨e, u⟩
  · obtain ⟨answer, w, hrule, hcheck, -⟩ := nextStep_ok hnext
    refine ⟨answer, w, step, hrule, (Stepsize.check_eq_ok_iff.mp hcheck).1, ?_⟩
    have hmaps : (settled p.maps : Stepwise ε α _) u = .ok fs u := settled_eq_ok_iff.mpr ⟨hp, rfl⟩
    rw [Scribe.tacit_bind_of_ok hnext, Scribe.tacit_bind_of_ok hmaps,
      Scribe.tacit_get_bind] at ha
    have hcalls : Scribe.Leads (do
        let y ← Scribe.within (Stepping.surroundings ε α)
          (Narrated.applyMaps p.manifold (weightOf step fs) fs u.position.x)
        Scribe.tacit (modify (Stepping.place (·.moveTo y)))) (fun _ => True)
        (fun a => a.parameter = .real (weightOf step fs) ∧ a.Genuine p.manifold) fun _ => True :=
      .bind (.within (leads_applyMaps _ _ _ _)) fun _ => .tacit fun _ _ _ _ _ => trivial
    exact ((hcalls u trivial).1 a ha).1
  · -- the rule fails before the first map is reached
    rw [Scribe.tacit_bind_of_error hnext] at ha
    exact absurd ha List.not_mem_nil

theorem sweepStep_refused {step : α}
    (hrule : o.stepsize.next settings p s.position (.whole k) ⟨s.env, s.journal⟩ = .ok answer w)
    (hreal : answer.toReal = .ok step) (hstep : Stepsize.usable step false = false) :
    Narrated.sweepStep settings p o k s =
      ([], .error (.unusableStep step k) ⟨w.env, w.journal, s.position⟩) := by
  have hcheck : Stepsize.check answer k false = .error (.unusableStep step k) :=
    Stepsize.check_of_unusable hreal hstep
  have hnext : nextStep settings p o k false s =
      .error (.unusableStep step k) ⟨w.env, w.journal, s.position⟩ := by
    have hrun := Part.run_of_ok (Stepping.workshop ε α) hrule
    unfold nextStep
    rw [get_bind, bind_of_ok hrun, hcheck]
    rfl
  exact Scribe.tacit_bind_of_error hnext

end Step

def Visit.applications (p : Problem ε α) (o : Options ε α) (v : Visit ε α) :
    List (Application ε α) :=
  match v.call with
  | .step k => (Narrated.sweepStep v.before.settings p o k ((Session.stepping ε α).get v.before)).1
  | _ => []

def applications (fuel : Nat) (p : Problem ε α) (o : Options ε α) (chain : List (Decorator ε α))
    (s : Session ε α) : List (Application ε α) :=
  (history fuel p o chain sweep s).flatMap (Visit.applications p o)

/-- The sweeps after the first `done` ones up to the `n`-th, with all their calls of the maps. -/
inductive Sweeps (p : Problem ε α) (o : Options ε α) (fs : List (ProximalMap ε α)) :
    Nat → Position α → List (Application ε α) → Nat → Position α → Prop
  | nil (n : Nat) (q : Position α) : Sweeps p o fs n q [] n q
  | cons {done n : Nat} {old new q : Position α} {as bs : List (Application ε α)}
      {settings : Settings α} {w : Workshop ε} {step : α} :
      Swept p o fs settings (done + 1) w old new as step → Sweeps p o fs (done + 1) new bs n q →
      Sweeps p o fs done old (as ++ bs) n q

theorem Sweeps.maps {done n : Nat} {old new : Position α} {as : List (Application ε α)}
    (h : Sweeps p o fs done old as n new) :
    done ≤ n ∧ as.map Application.map = (List.replicate (n - done) fs).flatten := by
  induction h with
  | nil n q => simp
  | @cons done n _ _ _ as bs _ _ _ swept _ ih =>
    obtain ⟨hle, hmaps⟩ := ih
    have hcount : n - done = n - (done + 1) + 1 := by omega
    refine ⟨by omega, ?_⟩
    rw [List.map_append, swept.maps, hmaps, hcount, List.replicate_succ, List.flatten_cons]

theorem swept_of_step {v : Visit ε α} {k : Nat} {b : Bool} {t : Session ε α} (hp : p.maps = .ok fs)
    (hk : v.call = .step k) (hv : v.outcome = v.call.perform p o sweep v.before)
    (ht : v.outcome = .ok b t) :
    ∃ step, Swept p o fs v.before.settings k ⟨v.before.env, v.before.journal⟩
      v.before.state.position t.state.position (v.applications p o) step := by
  rw [ht, hk] at hv
  obtain ⟨u, hstep, hposition⟩ := step_of_perform hv.symm
  rw [← outcome_sweepStep] at hstep
  have happs : v.applications p o = (Narrated.sweepStep v.before.settings p o k
      ((Session.stepping ε α).get v.before)).1 := by
    rw [Visit.applications, hk]
  have hnarrated : Narrated.sweepStep v.before.settings p o k
      ((Session.stepping ε α).get v.before) = (v.applications p o, .ok () u) :=
    Prod.ext happs.symm hstep
  rw [hposition]
  exact sweepStep_ok hp hnarrated

section Runs
variable {chain : List (Decorator ε α)} {s t : Session ε α} {vs : List (Visit ε α)}

theorem perform_sweep_prepare {b : Bool} (h : Call.prepare.perform p o sweep s = .ok b t) :
    t.state.position = s.state.position := by
  obtain ⟨_, u, hrun, h₁⟩ := sequence_eq_ok_iff.mp h
  cases h₁
  obtain ⟨r, hprepare, rfl⟩ := (Part.run_eq_ok_iff _).mp hrun
  obtain ⟨order, -, h₂⟩ := settled_bind_eq_ok_iff.mp hprepare
  obtain ⟨_, -, h₃⟩ := settled_bind_eq_ok_iff.mp h₂
  split at h₃
  · cases h₃
  · cases h₃
    rfl

theorem sweeps_of_linked (hp : p.maps = .ok fs) (h : Linked s vs t)
    (performed : ∀ v ∈ vs, v.outcome = v.call.perform p o sweep v.before) {done m : Nat}
    (numbered : (vs.map Visit.call).filterMap Call.stepNumber? = List.range' (done + 1) m) :
    Sweeps p o fs done s.state.position (vs.flatMap (Visit.applications p o)) (done + m)
      t.state.position := by
  -- the numbers of the steps say which sweep the next step is
  induction h generalizing done m with
  | nil hagrees =>
    have hm : m = 0 := by simpa using congrArg List.length numbered.symm
    rw [hm, hagrees.position]
    exact .nil done _
  | @cons s t u v vs b hbefore hout _ ih =>
    have performed' := fun v hv => performed v (List.mem_cons_of_mem _ hv)
    have hv := performed v List.mem_cons_self
    -- only a step calls maps, and only a step moves
    have idle (hnone : v.call.stepNumber? = none) (happs : v.applications p o = [])
        (hposition : u.state.position = v.before.state.position) :
        Sweeps p o fs done s.state.position ((v :: vs).flatMap (Visit.applications p o)) (done + m)
          t.state.position := by
      rw [List.map_cons, List.filterMap_cons_none hnone] at numbered
      rw [List.flatMap_cons, happs, List.nil_append, ← hbefore.position, ← hposition]
      exact ih performed' numbered
    rcases hc : v.call with _ | ⟨phase, k, d⟩ | k | k
    · rw [hout, hc] at hv
      exact idle (by rw [hc]; rfl) (by rw [Visit.applications, hc])
        (perform_sweep_prepare hv.symm)
    · rw [hout, hc] at hv
      refine idle (by rw [hc]; rfl) (by rw [Visit.applications, hc]) ?_
      rw [(perform_hook hv.symm).2.1]
    · rw [hout, hc] at hv
      refine idle (by rw [hc]; rfl) (by rw [Visit.applications, hc]) ?_
      rw [perform_judge hv.symm]
    · have hsome : v.call.stepNumber? = some k := by rw [hc]; rfl
      rw [List.map_cons, List.filterMap_cons_some hsome] at numbered
      cases m with
      | zero => cases numbered
      | succ m =>
        obtain ⟨rfl, hrest⟩ := List.cons.inj numbered
        obtain ⟨step, swept⟩ := swept_of_step hp hc hv hout
        have rest := ih performed' hrest
        rw [hbefore.position] at swept
        have hsum : done + (m + 1) = done + 1 + m := by omega
        rw [List.flatMap_cons, hsum]
        exact .cons swept rest

theorem sweeps_of_solve {fuel : Nat} (hp : p.maps = .ok fs)
    (h : solve fuel p o chain sweep s = .ok () t) :
    ∃ s₁ n, validate p s = .ok () s₁ ∧ t.state.iteration = .whole (Int.ofNat n) ∧
      Sweeps p o fs 0 s₁.state.position (applications fuel p o chain s) n t.state.position := by
  have performed : ∀ v ∈ history fuel p o chain sweep s,
      v.outcome = v.call.perform p o sweep v.before := fun v hv => outcome_of_mem_history hv
  obtain ⟨s₁, hvalid, linked⟩ := linked_of_solve h
  obtain ⟨n, hiteration, hcalls, -⟩ := calls_of_solve h
  have numbered : ((history fuel p o chain sweep s).map Visit.call).filterMap Call.stepNumber? =
      List.range' (0 + 1) n := by
    rw [hcalls, calls, List.filterMap_cons_none rfl, List.filterMap_append, stepNumbers_hooks,
      List.nil_append, List.filterMap_cons_none rfl, List.filterMap_append, stepNumbers_hooks,
      List.append_nil]
    exact stepNumbers_rounds chain n
  have key := sweeps_of_linked hp linked performed numbered
  rw [Nat.zero_add] at key
  exact ⟨s₁, n, hvalid, hiteration, key⟩

theorem solve_of_unusable {fuel k : Nat} {v : Visit ε α} {answer : Datum α} {w : Workshop ε}
    {step : α} (hv : v ∈ history fuel p o chain sweep s) (hk : v.call = .step k)
    (hrule : o.stepsize.next v.before.settings p v.before.state.position (.whole k)
      ⟨v.before.env, v.before.journal⟩ = .ok answer w)
    (hreal : answer.toReal = .ok step) (hstep : Stepsize.usable step false = false) :
    v.applications p o = [] ∧
      ∃ t, solve fuel p o chain sweep s = .error (.unusableStep step k) t := by
  have hrefused := sweepStep_refused (s := (Session.stepping ε α).get v.before) hrule hreal hstep
  constructor
  · rw [Visit.applications, hk]
    exact congrArg Prod.fst hrefused
  · have hsweep : sweep.step v.before.settings p o k ((Session.stepping ε α).get v.before) =
        .error (.unusableStep step k) ⟨w.env, w.journal, v.before.state.position⟩ := by
      rw [← outcome_sweepStep]
      exact congrArg Prod.snd hrefused
    have houtcome := outcome_of_mem_history hv
    obtain ⟨t, ht⟩ := perform_of_step_error hsweep
    rw [hk, ht] at houtcome
    exact ⟨t, (solve_of_failed_step hv hk houtcome).1⟩

end Runs

section Making
variable {M : Option (Manifold α)} {cost : Candidate α (Cost ε α)}

omit [Scalar α] in
theorem maps_of_made (made : Problem.withProximalMaps M cost (.sequence (fs.map .callable)) = .ok p) :
    p.maps = .ok fs ∧ fs ≠ [] := by
  obtain ⟨q, -, h⟩ := bind_eq_ok_iff.mp made
  cases fs with
  | nil => cases h
  | cons f fs =>
    obtain ⟨gs, hgs, h₁⟩ := bind_eq_ok_iff.mp h
    cases h₁
    rw [Problem.requireMaps_callable] at hgs
    cases hgs
    exact ⟨rfl, List.cons_ne_nil f fs⟩

theorem number_real {name : String} {range : Range} {x y : α}
    (h : Parameter.number name range (.real x) = .ok y) : y = x := by
  change (if Scalar.isFinite x = true then if Parameter.within range (.real x) = true then _ else _
    else _) = _ at h
  split at h
  · split at h
    · exact (Except.ok.inj h).symm
    · cases h
  · cases h

theorem harmonic_ok {length : Datum α} {schedule : Schedule α}
    (h : Schedule.harmonic length = .ok schedule) :
    ∃ l, Parameter.number "length" .positive length = .ok l ∧ schedule = ⟨l, 1, 0, 1⟩ := by
  obtain ⟨l, hl, h₁⟩ := bind_eq_ok_iff.mp h
  obtain ⟨factor, hfactor, h₂⟩ := bind_eq_ok_iff.mp h₁
  obtain ⟨subtrahend, hsubtrahend, h₃⟩ := bind_eq_ok_iff.mp h₂
  obtain ⟨exponent, hexponent, h₄⟩ := bind_eq_ok_iff.mp h₃
  cases h₄
  exact ⟨l, hl, by rw [number_real hfactor, number_real hsubtrahend, number_real hexponent]⟩

theorem plan_sweep_ok {next : Nat} {maps : MapsGiven ε α} {length : Datum α} {choices : Choices ε α}
    {plan : Plan ε α} (hnone : choices.stepsize = none)
    (h : Plan.sweep next M cost maps length choices = .ok plan) :
    ∃ l, Parameter.number "length" .positive length = .ok l ∧
      Problem.withProximalMaps M cost maps = .ok plan.problem ∧ plan.solver = sweep ∧
      plan.options.stepsize = .decreasing ⟨l, 1, 0, 1⟩ := by
  obtain ⟨q, hq, h₁⟩ := bind_eq_ok_iff.mp h
  simp only [hnone] at h₁
  obtain ⟨rule, hrule, h₂⟩ := bind_eq_ok_iff.mp h₁
  rcases hharmonic : Schedule.harmonic length with e | schedule
  · rw [hharmonic] at hrule
    cases hrule
  · rw [hharmonic] at hrule
    cases hrule
    obtain ⟨l, hl, rfl⟩ := harmonic_ok hharmonic
    obtain ⟨attached, -, h₃⟩ := bind_eq_ok_iff.mp h₂
    cases h₃
    exact ⟨l, hl, hq, rfl, rfl⟩

theorem parameter_harmonic {p : Problem ε ℝ} {o : Options ε ℝ} {fs : List (ProximalMap ε ℝ)}
    {l : ℝ} {v : Visit ε ℝ} {k : Nat} {a : Application ε ℝ} (hp : p.maps = .ok fs)
    (hrule : o.stepsize = .decreasing ⟨l, 1, 0, 1⟩) (hk : v.call = .step k) (hle : 1 ≤ k)
    (ha : a ∈ v.applications p o) : a.parameter = .real (l / (k * fs.length)) := by
  rw [Visit.applications, hk] at ha
  obtain ⟨answer, w, step, hnext, hreal, hparameter⟩ := sweepStep_calls hp ha
  rw [hrule] at hnext
  change settled (refusing (Schedule.value _ (.whole k))) _ = _ at hnext
  rw [Schedule.value_harmonic l hle] at hnext
  cases hnext
  cases hreal
  rw [hparameter]
  have hweight : weightOf (l / k) fs = l / (k * fs.length) := by
    have hshare : weightOf (l / k) fs = l / k / (fs.length : ℝ) := by
      change l / k / ((Int.ofNat fs.length : Int) : ℝ) = _
      rw [Int.ofNat_eq_natCast, Int.cast_natCast]
    rw [hshare, div_div]
  rw [hweight]

end Making

/-- The law of sweeps. In every run a sweep that returns has called the maps one after the other, each
for its share of the step, and before a step that cannot be used no map is called. A run that returns
consists of such sweeps and of nothing else, so that it has called all maps over and over in declared
order. With the standard schedule the shares are exact fractions, as far as arithmetic is exact. -/
theorem sweep_law {M : Option (Manifold α)} {cost : Candidate α (Cost ε α)}
    {chain : List (Decorator ε α)}
    (made : Problem.withProximalMaps M cost (.sequence (fs.map .callable)) = .ok p) (fuel : Nat)
    (s : Session ε α) :
    (∀ v ∈ history fuel p o chain sweep s, ∀ k b t, v.call = .step k → v.outcome = .ok b t →
      ∃ step, Swept p o fs v.before.settings k ⟨v.before.env, v.before.journal⟩
        v.before.state.position t.state.position (v.applications p o) step) ∧
    (∀ v ∈ history fuel p o chain sweep s, ∀ (k : Nat) answer w step, v.call = .step k →
      o.stepsize.next v.before.settings p v.before.state.position (.whole k)
        ⟨v.before.env, v.before.journal⟩ = .ok answer w → answer.toReal = .ok step →
      Scalar.isFinite step = false ∨ Scalar.lt step 0 = true ∨ Scalar.eq step 0 = true →
      v.applications p o = [] ∧
        ∃ t, solve fuel p o chain sweep s = .error (.unusableStep step k) t) ∧
    (∀ t, solve fuel p o chain sweep s = .ok () t →
      ∃ s₁ n, validate p s = .ok () s₁ ∧ t.state.iteration = .whole (Int.ofNat n) ∧
        Sweeps p o fs 0 s₁.state.position (applications fuel p o chain s) n t.state.position ∧
        (applications fuel p o chain s).map Application.map = (List.replicate n fs).flatten ∧
        (applications fuel p o chain s).length = n * fs.length) ∧
    ∀ next (M : Option (Manifold ℝ)) cost (gs : List (ProximalMap ε ℝ)) length l choices plan,
      choices.stepsize = none → Parameter.number "length" .positive length = .ok l →
      Plan.sweep next M cost (.sequence (gs.map .callable)) length choices = .ok plan →
      ∀ fuel s, ∀ v ∈ history fuel plan.problem plan.options plan.chain plan.solver s, ∀ k,
        1 ≤ k → v.call = .step k → ∀ a ∈ v.applications plan.problem plan.options,
          a.parameter = .real (l / (k * gs.length)) := by
  obtain ⟨hp, -⟩ := maps_of_made made
  refine ⟨fun v hv k b t hk ht => ?_, fun v hv k answer w step hk hrule hreal hbad => ?_,
    fun t ht => ?_, ?_⟩
  · exact swept_of_step hp hk (outcome_of_mem_history hv) ht
  · -- the three ways in which a step cannot be used
    have hstep : Stepsize.usable step false = false := by
      rw [Bool.eq_false_iff, Ne, usable_without_zero_iff]
      rintro ⟨hfinite, hnonneg, hnonzero⟩
      rcases hbad with h | h | h
      · exact absurd (hfinite.symm.trans h) nofun
      · exact absurd (hnonneg.symm.trans h) nofun
      · exact absurd (hnonzero.symm.trans h) nofun
    exact solve_of_unusable hv hk hrule hreal hstep
  · obtain ⟨s₁, n, hvalid, hiteration, hsweeps⟩ := sweeps_of_solve hp ht
    have hmaps := hsweeps.maps.2
    rw [Nat.sub_zero] at hmaps
    have hlength : (applications fuel p o chain s).length = n * fs.length := by
      rw [← List.length_map, hmaps, List.length_flatten, List.map_replicate, List.sum_replicate,
        smul_eq_mul]
    exact ⟨s₁, n, hvalid, hiteration, hsweeps, hmaps, hlength⟩
  · intro next M cost gs length l choices plan hnone hl hplan fuel s v hv k hle hk a ha
    obtain ⟨l', hl', hmade, -, hrule⟩ := plan_sweep_ok hnone hplan
    rw [hl] at hl'
    cases hl'
    exact parameter_harmonic (maps_of_made hmade).1 hrule hk hle ha

def pushAndShrink : List (ProximalMap Unit Float) :=
  [Simulation.shifting (.array ⟨[1], .whole [3]⟩), Simulation.shrinking]

def pushed : Problem Unit Float :=
  ⟨Manifold.euclideanOf (.whole 1), Simulation.quadratic 1, .proximal pushAndShrink⟩

def twiceFor (length : Float) : Options Unit Float :=
  ⟨.sweep Flavour.standardOrder, .atom 0 (.cap 2), .constant length⟩

def lineStart : Session Unit Float := .start () .standard (.start (.array ⟨[1], .whole [5]⟩))

theorem sweep_law_pushed :
    (∃ t n, solve 2 pushed (twiceFor 1) [] sweep lineStart = .ok () t ∧
      t.state.iteration = .whole (Int.ofNat n) ∧
      (applications 2 pushed (twiceFor 1) [] lineStart).map Application.map =
        (List.replicate n pushAndShrink).flatten) ∧
    ∃ t, solve 2 pushed (twiceFor 0) [] sweep lineStart = .error (.unusableStep 0 1) t := by
  have made : Problem.withProximalMaps (some pushed.manifold) (.callable pushed.cost)
      (.sequence (pushAndShrink.map .callable)) = .ok pushed := rfl
  constructor
  · obtain ⟨_, t, ht, -⟩ : ∃ b t, solve 2 pushed (twiceFor 1) [] sweep lineStart = .ok b t ∧ True := by
      decide +kernel
    obtain ⟨s₁, n, -, hn, -, hmaps, -⟩ := (sweep_law made 2 lineStart).2.2.1 t ht
    exact ⟨t, n, ht, hn, hmaps⟩
  · obtain ⟨v, hv, hk⟩ : ∃ v ∈ history 2 pushed (twiceFor 0) [] sweep lineStart,
        v.call = .step 1 := by
      decide +kernel
    exact ((sweep_law made 2 lineStart).2.1 v hv 1 (.real 0) _ 0 hk rfl rfl
      (.inr (.inr (by decide +kernel)))).2

end Geodescent.Solver
