import Geodescent.Solver.Descent

/-! One step of gradient descent, and the gradient that it leaves behind. -/
namespace Geodescent.Solver
variable {ε α : Type} [Scalar α] {p : Problem ε α} {o : Options ε α}
  {G : Manifold α → Point α → Answer α (Point α)} {settings : Settings α} {k : Int}
  {s t : Stepping ε α}

/-- A problem whose gradient is the plain function `G`. -/
def HasGradient (p : Problem ε α) (G : Manifold α → Point α → Answer α (Point α)) : Prop :=
  p.means = .gradient fun M x => settled (G M x)

/-- The gradient that is kept is the gradient at the point. -/
def Current (p : Problem ε α) (G : Manifold α → Point α → Answer α (Point α))
    (position : Position α) : Prop := G p.manifold position.x = .ok position.gradient

omit [Scalar α] in
theorem refreshGradient_eq_ok_iff : refreshGradient p s = .ok () t ↔
    ∃ g env, p.gradientAt s.position.x s.env = .ok g env ∧
      t = ⟨env, s.journal, { s.position with gradient := g }⟩ := by
  constructor
  · intro h
    obtain ⟨_, u, hget, h₁⟩ := sequence_eq_ok_iff.mp h
    cases hget
    obtain ⟨g, u, hrun, h₂⟩ := sequence_eq_ok_iff.mp h₁
    cases h₂
    obtain ⟨env, horacle, rfl⟩ := (Part.run_eq_ok_iff _).mp hrun
    exact ⟨g, env, horacle, rfl⟩
  · rintro ⟨g, env, horacle, rfl⟩
    have hrun := Part.run_of_ok (Stepping.surroundings ε α) horacle
    exact sequence_eq_ok_iff.mpr ⟨s, s, rfl, sequence_eq_ok_iff.mpr ⟨g, _, hrun, rfl⟩⟩

omit [Scalar α] in
theorem refreshGradient_ok (hG : HasGradient p G) (h : refreshGradient p s = .ok () t) :
    Current p G t.position ∧ t.position.x = s.position.x ∧
      t.position.lastStepsize = s.position.lastStepsize := by
  obtain ⟨g, env, horacle, rfl⟩ := refreshGradient_eq_ok_iff.mp h
  rw [Problem.gradientAt_of_gradient hG] at horacle
  obtain ⟨hg, rfl⟩ := settled_eq_ok_iff.mp horacle
  exact ⟨hg, rfl, rfl⟩

theorem usable_iff {step : α} : Stepsize.usable step true = true ↔
    Scalar.isFinite step = true ∧ Scalar.lt step 0 = false := by
  simp [Stepsize.usable]

/-- Iteration `k` goes from one position to another: the rule is asked at the old one, its answer is
checked and noted, and the retraction carries the old point along the negative gradient there, as
far as the answer says. -/
def Descends (p : Problem ε α) (o : Options ε α) (G : Manifold α → Point α → Answer α (Point α))
    (settings : Settings α) (k : Int) (w : Workshop ε) (old new : Position α) : Prop :=
  ∃ answer w' step R g v env,
    o.stepsize.next settings p old (.whole k) w = .ok answer w' ∧
    Stepsize.check answer k true = .ok step ∧
    Scalar.isFinite step = true ∧ Scalar.lt step 0 = false ∧
    new.lastStepsize = .real step ∧
    carrier o = .ok R ∧ G p.manifold old.x = .ok g ∧ (Datum.real (-step)).mul g = .ok v ∧
    R p.manifold old.x v w'.env = .ok new.x env

theorem nextStep_ok {step : α} {allowZero : Bool}
    (h : nextStep settings p o k allowZero s = .ok step t) :
    ∃ answer w, o.stepsize.next settings p s.position (.whole k) ⟨s.env, s.journal⟩ =
        .ok answer w ∧ Stepsize.check answer k allowZero = .ok step ∧
      t = ⟨w.env, w.journal, { s.position with lastStepsize := .real step }⟩ := by
  obtain ⟨_, u, hget, h₁⟩ := sequence_eq_ok_iff.mp h
  cases hget
  obtain ⟨answer, u, hrun, h₂⟩ := sequence_eq_ok_iff.mp h₁
  obtain ⟨w, hrule, rfl⟩ := (Part.run_eq_ok_iff _).mp hrun
  obtain ⟨_, hcheck, h₃⟩ := settled_bind_eq_ok_iff.mp h₂
  obtain ⟨_, u, hplace, h₄⟩ := sequence_eq_ok_iff.mp h₃
  cases hplace
  cases h₄
  exact ⟨answer, w, hrule, hcheck, rfl⟩

theorem nextStep_eq {answer : Datum α} {w : Workshop ε} {step : α} {allowZero : Bool}
    (hrule : o.stepsize.next settings p s.position (.whole k) ⟨s.env, s.journal⟩ = .ok answer w)
    (hcheck : Stepsize.check answer k allowZero = .ok step) :
    nextStep settings p o k allowZero s =
      .ok step ⟨w.env, w.journal, { s.position with lastStepsize := .real step }⟩ := by
  have hrun := Part.run_of_ok (Stepping.workshop ε α) hrule
  refine sequence_eq_ok_iff.mpr ⟨s, s, rfl, sequence_eq_ok_iff.mpr ⟨answer, _, hrun, ?_⟩⟩
  exact sequence_eq_ok_iff.mpr ⟨step, _, settled_eq_ok_iff.mpr ⟨hcheck, rfl⟩, rfl⟩

theorem step_of_rule_error {e : Fault α} {w : Workshop ε}
    (h : o.stepsize.next settings p s.position (.whole k) ⟨s.env, s.journal⟩ = .error e w) :
    ∃ t, descent.step settings p o k s = .error e t := by
  have hrun : (Stepping.workshop ε α).run (o.stepsize.next settings p s.position (.whole k)) s =
      .error e ((Stepping.workshop ε α).set w s) := Part.run_of_error _ h
  have hnext : nextStep settings p o k true s = .error e ((Stepping.workshop ε α).set w s) := by
    unfold nextStep
    rw [get_bind, bind_of_error hrun]
  exact ⟨_, bind_of_error hnext⟩

theorem step_parts (h : descent.step settings p o k s = .ok () t) :
    ∃ answer w step R v y env,
      o.stepsize.next settings p s.position (.whole k) ⟨s.env, s.journal⟩ = .ok answer w ∧
      Stepsize.check answer k true = .ok step ∧ carrier o = .ok R ∧
      (Datum.real (-step)).mul s.position.gradient = .ok v ∧
      R p.manifold s.position.x v w.env = .ok y env ∧
      refreshGradient p ⟨env, w.journal,
        { s.position with x := y, lastStepsize := .real step }⟩ = .ok () t := by
  obtain ⟨step, u, hnext, h₁⟩ := sequence_eq_ok_iff.mp h
  obtain ⟨answer, w, hrule, hcheck, rfl⟩ := nextStep_ok hnext
  obtain ⟨R, hcarrier, h₂⟩ := settled_bind_eq_ok_iff.mp h₁
  obtain ⟨_, u, hget, h₃⟩ := sequence_eq_ok_iff.mp h₂
  cases hget
  obtain ⟨v, hdown, h₄⟩ := settled_bind_eq_ok_iff.mp h₃
  have hv : (Datum.real (-step)).mul s.position.gradient = .ok v := refusing_eq_ok_iff.mp hdown
  obtain ⟨y, u, hrun, h₅⟩ := sequence_eq_ok_iff.mp h₄
  obtain ⟨env, hmove, rfl⟩ := (Part.run_eq_ok_iff _).mp hrun
  obtain ⟨_, u, hplace, h₆⟩ := sequence_eq_ok_iff.mp h₅
  cases hplace
  exact ⟨answer, w, step, R, v, y, env, hrule, hcheck, hcarrier, hv, hmove, h₆⟩

theorem step_ok (hG : HasGradient p G) (hs : Current p G s.position)
    (h : descent.step settings p o k s = .ok () t) : Current p G t.position ∧
      Descends p o G settings k ⟨s.env, s.journal⟩ s.position t.position := by
  obtain ⟨answer, w, step, R, v, y, env, hrule, hcheck, hcarrier, hv, hmove, hrefresh⟩ :=
    step_parts h
  obtain ⟨hcurrent, hx, hlast⟩ := refreshGradient_ok hG hrefresh
  obtain ⟨hfinite, hnonneg⟩ := usable_iff.mp (Stepsize.check_eq_ok_iff.mp hcheck).2
  refine ⟨hcurrent, answer, w, step, R, s.position.gradient, v, env, hrule, hcheck, hfinite,
    hnonneg, hlast, hcarrier, hs, hv, ?_⟩
  rw [hx]
  exact hmove

theorem prepare_ok (hG : HasGradient p G) (h : descent.prepare p o s = .ok () t) :
    Current p G t.position := by
  obtain ⟨_, u, hresolve, h₁⟩ := sequence_eq_ok_iff.mp h
  exact (refreshGradient_ok hG h₁).1

end Geodescent.Solver
