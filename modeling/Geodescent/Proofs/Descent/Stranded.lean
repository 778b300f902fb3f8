import Geodescent.Proofs.Descent.Realised
import Geodescent.Proofs.Run.Raised

/-! What a failed step of gradient descent leaves behind. Point, gradient and counter stay together up
to the moment at which the gradient at the new point fails: the point is the new one then, and the
gradient and the counter are still those of the point before. `stranded_law` says that this is the
only way in which they come apart. -/
namespace Geodescent.Solver
variable {ε α : Type} [Scalar α] {p : Problem ε α} {o : Options ε α} {chain : List (Decorator ε α)}

/-- The gradient that is kept is one that has been answered for the point. -/
def Fetched (p : Problem ε α) (position : Position α) : Prop :=
  ∃ env env', p.gradientAt position.x env = .ok position.gradient env'

section Step
variable {settings : Settings α} {k : Int} {s t : Stepping ε α} {e : Fault α}

omit [Scalar α] in
theorem fetched_of_refresh (h : refreshGradient p s = .ok () t) : Fetched p t.position := by
  obtain ⟨g, env, horacle, rfl⟩ := refreshGradient_eq_ok_iff.mp h
  exact ⟨s.env, env, horacle⟩

/-- What fails between the step length and the new point: the retraction is none, the gradient has no
multiple of this kind, or the retraction fails. -/
inductive MotionRaises (p : Problem ε α) (o : Options ε α) (step : α) (s : Stepping ε α)
    (e : Fault α) : Prop
  | carrier (fails : carrier o = .error e)
  | direction {R : Retraction ε α} (carrier : carrier o = .ok R)
      (fails : downhill step s.position = .error e)
  | retraction {R : Retraction ε α} {v : Point α} {env : ε} (carrier : carrier o = .ok R)
      (direction : downhill step s.position = .ok v)
      (fails : R p.manifold s.position.x v s.env = .error e env)

def Moves (p : Problem ε α) (o : Options ε α) (step : α) (s : Stepping ε α) (y : Point α)
    (env : ε) : Prop :=
  ∃ R v, carrier o = .ok R ∧ downhill step s.position = .ok v ∧
    R p.manifold s.position.x v s.env = .ok y env

/-- What a failed step `k` from the session part `s` leaves of the position. -/
inductive Strands (p : Problem ε α) (o : Options ε α) (settings : Settings α) (k : Int)
    (s : Stepping ε α) (e : Fault α) (new : Position α) : Prop
  | length (fails : RuleRaises p o settings k true s e) (kept : new = s.position)
  | motion {step : α} {t : Stepping ε α} (length : nextStep settings p o k true s = .ok step t)
      (fails : MotionRaises p o step t e)
      (noted : new = { s.position with lastStepsize := .real step })
  | gradient {step : α} {t : Stepping ε α} {y : Point α} {env env' : ε}
      (length : nextStep settings p o k true s = .ok step t) (moves : Moves p o step t y env)
      (fails : p.gradientAt y env = .error e env')
      (ahead : new = { s.position with x := y, lastStepsize := .real step })

theorem strands_of_step (h : descent.step settings p o k s = .error e t) :
    Strands p o settings k s e t.position := by
  rcases sequence_eq_error_iff.mp h with hnext | ⟨step, u, hnext, h₁⟩
  · obtain ⟨hposition, hraises⟩ := nextStep_error hnext
    exact .length hraises hposition
  have hu : u.position = { s.position with lastStepsize := .real step } := by
    obtain ⟨answer, w, -, -, rfl⟩ := nextStep_ok hnext
    rfl
  rcases sequence_eq_error_iff.mp h₁ with hcarrier | ⟨R, u', hcarrier, h₂⟩
  · obtain ⟨hfails, rfl⟩ := settled_eq_error_iff.mp hcarrier
    exact .motion hnext (.carrier hfails) hu
  obtain ⟨hR, rfl⟩ := settled_eq_ok_iff.mp hcarrier
  rw [get_bind] at h₂
  rcases sequence_eq_error_iff.mp h₂ with hdown | ⟨v, u', hdown, h₃⟩
  · obtain ⟨hfails, rfl⟩ := settled_eq_error_iff.mp hdown
    exact .motion hnext (.direction hR hfails) hu
  obtain ⟨hv, rfl⟩ := settled_eq_ok_iff.mp hdown
  rcases sequence_eq_error_iff.mp h₃ with hmove | ⟨y, u', hmove, h₄⟩
  · obtain ⟨env, hfails, rfl⟩ := (Part.run_eq_error_iff _).mp hmove
    exact .motion hnext (.retraction hR hv hfails) hu
  -- the point is written here, before the gradient is asked for
  obtain ⟨env, hmoves, rfl⟩ := (Part.run_eq_ok_iff _).mp hmove
  obtain ⟨hposition, env', hfails⟩ := refreshGradient_error h₄
  refine .gradient hnext ⟨R, v, hR, hv, hmoves⟩ hfails ?_
  rw [hposition]
  exact congrArg (fun position : Position α => { position with x := y }) hu

theorem Strands.apart {new : Position α} (h : Strands p o settings k s e new) :
    new.gradient = s.position.gradient ∧
      (new.x = s.position.x ∨ ∃ env env', p.gradientAt new.x env = .error e env') := by
  cases h with
  | length fails kept => exact ⟨by rw [kept], .inl (by rw [kept])⟩
  | motion length fails noted => exact ⟨by rw [noted], .inl (by rw [noted])⟩
  | gradient length moves fails ahead =>
    rw [ahead]
    exact ⟨rfl, .inr ⟨_, _, fails⟩⟩

end Step

theorem invariant_fetched : Invariant p o descent (fun s => Fetched p s.state.position)
    fun v => v.call ≠ .prepare → Fetched p v.before.state.position where
  books s t h hs := by
    rw [h.position]
    exact hs
  opening s h := absurd rfl h
  prepared s b t h := by
    obtain ⟨_, u, hrun, h₁⟩ := sequence_eq_ok_iff.mp h
    cases h₁
    obtain ⟨r, hprepare, rfl⟩ := (Part.run_eq_ok_iff _).mp hrun
    obtain ⟨_, u, -, hrefresh⟩ := sequence_eq_ok_iff.mp hprepare
    exact fetched_of_refresh hrefresh
  noted c s _ hs _ := hs
  kept c s b t hc hs h := by
    cases c with
    | prepare => exact absurd rfl hc
    | hook phase k d =>
      rw [(perform_hook h).2.1]
      exact hs
    | judge k =>
      rw [perform_judge h]
      exact hs
    | step k =>
      -- a step ends with a gradient for the point that it has reached
      obtain ⟨u, hstep, hposition⟩ := step_of_perform h
      obtain ⟨_, _, _, _, _, _, _, -, -, -, -, -, hrefresh⟩ := step_parts hstep
      rw [hposition]
      exact fetched_of_refresh hrefresh

/-- The law of failed descent steps. A step fails when something that it calls fails, and the run
fails as it does, with the counter at the iterations before. Up to the retraction a failure leaves the
last of their iterates in place, with the gradient that was answered there. Where it is the gradient
that fails the iterate is already the new one, at which there is no gradient, while gradient and
counter are still those of the iterate before. -/
theorem stranded_law (fuel : Nat) (s : Session ε α) :
    ∀ v ∈ history fuel p o chain descent s, ∀ k, v.call = .step k → ∀ e,
      (DescentRaises p o v.before.settings k ((Session.stepping ε α).get v.before) e ↔
        ∃ t, v.outcome = .error e t) ∧
      ∀ t, v.outcome = .error e t → solve fuel p o chain descent s = .error e t ∧
        ∃ s₁ n x change vs, validate p s = .ok () s₁ ∧ k = n + 1 ∧
          history fuel p o chain descent s = vs ++ [v] ∧
          Interrupted p o chain x change s₁ vs n v ∧
          t.state.iteration = .whole (Int.ofNat n) ∧
          v.before.state.x = x n ∧ Fetched p v.before.state.position ∧
          t.state.gradient = v.before.state.gradient ∧
          Strands p o v.before.settings k ((Session.stepping ε α).get v.before) e
            t.state.position ∧
          ((t.state.x = x n ∧ Fetched p t.state.position) ∨
            ∃ env env', p.gradientAt t.state.x env = .error e env') := by
  intro v hv k hk e
  have performed := outcome_of_mem_history hv
  constructor
  · rw [performed, hk, perform_error_iff]
    exact descent_step_error_iff.symm
  · intro t ht
    have hfailed : v.Failed k e t := ⟨hk, ht⟩
    obtain ⟨s₁, n, x, change, vs, hvalid, rfl, hsolve, interrupted⟩ := solve_of_failed hv hfailed
    have hfetched : Fetched p v.before.state.position :=
      (invariant_fetched.history fuel s).1 v hv (by rw [hk]; exact nofun)
    rw [ht, hk] at performed
    obtain ⟨u, hstep, rfl⟩ := perform_step_error performed.symm
    have strands := strands_of_step hstep
    obtain ⟨hgradient, hx⟩ := strands.apart
    refine ⟨?_, s₁, n, x, change, vs, hvalid, rfl, congrArg Prod.fst hsolve, interrupted,
      interrupted.closing.iteration, interrupted.closing.x, hfetched, hgradient, strands, ?_⟩
    · rw [← outcome_solve, Scribe.outcome, hsolve]
    -- an unmoved point keeps the gradient that was fetched for it
    · refine hx.imp_left fun hx => ⟨hx.trans interrupted.closing.x, ?_⟩
      obtain ⟨env, env', horacle⟩ := hfetched
      refine ⟨env, env', ?_⟩
      change p.gradientAt u.position.x env = .ok u.position.gradient env'
      rw [hx, hgradient]
      exact horacle

def foggy : Problem Nat Float :=
  ⟨Manifold.euclideanOf (.whole 2), Simulation.quadratic 1, .gradient fun M x => do
    let n ← getModify (· + 1)
    if n = 0 then Simulation.scaling 2 M x else throw (.oracle "fog")⟩

def strolling : Options Nat Float := ⟨.descent .standard, .atom 0 (.cap 2), .constant 0.25⟩

def clearing : Session Nat Float :=
  .start 0 .standard (.start (.array ⟨[2], .whole [4, -8]⟩))

theorem stranded_law_foggy : ∃ v ∈ history 2 foggy strolling [] descent clearing, ∃ t,
    v.call = .step 1 ∧ solve 2 foggy strolling [] descent clearing = .error (.oracle "fog") t ∧
      t.state.iteration = .whole 0 ∧ t.state.gradient = v.before.state.gradient ∧
      Fetched foggy v.before.state.position := by
  obtain ⟨v, hv, hk, e, t, ht, rfl⟩ : ∃ v ∈ history 2 foggy strolling [] descent clearing,
      v.call = .step 1 ∧ ∃ e t, v.outcome = .error e t ∧ e = .oracle "fog" := by
    decide +kernel
  obtain ⟨hsolve, _, _, _, _, _, -, hn, -, -, hiteration, -, hfetched, hgradient, -⟩ :=
    (stranded_law 2 clearing v hv 1 hk (.oracle "fog")).2 t ht
  cases hn
  exact ⟨v, hv, t, hk, hsolve, hiteration, hgradient, hfetched⟩

/-- The point is half way down, where nobody has answered a gradient; the gradient is the one at the
start and no iteration counts. -/
theorem not_paired_when_gradient_fails :
    ∃ e t, solve 2 foggy strolling [] descent clearing = .error e t ∧ e = .oracle "fog" ∧
      t.state.iteration = .whole 0 ∧ t.state.x = .array ⟨[2], .real [2, -4]⟩ ∧
      t.state.gradient = .array ⟨[2], .real [8, -16]⟩ := by
  decide +kernel

end Geodescent.Solver
