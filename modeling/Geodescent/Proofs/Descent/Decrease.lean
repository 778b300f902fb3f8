import Geodescent.Proofs.Descent.Realised

/-! Sufficient decrease along descents with searched steps. Every step that returns has brought the
cost down as far as the search demands, and where a search fails the run fails with it:
`decrease_law`. -/
namespace Geodescent.Solver
variable {ε α : Type} [Scalar α] {p : Problem ε α} {o : Options ε α} {r : Armijo ε α}
  {G : Manifold α → Point α → Answer α (Point α)} {C : Manifold α → Point α → Answer α α}
  {R : Manifold α → Point α → Point α → Answer α (Point α)} {chain : List (Decorator ε α)}

def HasCost (p : Problem ε α) (C : Manifold α → Point α → Answer α α) : Prop :=
  p.cost = fun M x => settled (C M x)

omit [Scalar α] in
theorem costAt_eq_ok_iff (hC : HasCost p C) {x : Point α} {c : α} {env env' : ε} :
    p.costAt x env = .ok c env' ↔ C p.manifold x = .ok c ∧ env' = env := by
  unfold Problem.costAt
  rw [hC]
  exact settled_eq_ok_iff

omit [Scalar α] in
theorem gradientOf_of_current (hG : HasGradient p G) {s : Position α} (hs : Current p G s)
    {g : Point α} {env env' : ε} (h : Armijo.gradientOf p s env = .ok g env') :
    G p.manifold s.x = .ok g := by
  -- the search asks anew only if no gradient is kept
  by_cases hkept : s.gradient = .none
  · unfold Armijo.gradientOf at h
    rw [hkept] at h
    change p.gradientAt s.x env = _ at h
    rw [Problem.gradientAt_of_gradient hG] at h
    exact (settled_eq_ok_iff.mp h).1
  · rw [gradientOf_of_kept hkept] at h
    cases h
    exact hs

/-- The step from `old` to `new` has the length that was noted, and brings the cost down as far as the
search demands of a step of this length, unless the gradient vanishes. -/
def Decreases (p : Problem ε α) (r : Armijo ε α) (G : Manifold α → Point α → Answer α (Point α))
    (C : Manifold α → Point α → Answer α α) (old new : Position α) : Prop :=
  ∃ g product q step, G p.manifold old.x = .ok g ∧
    p.manifold.inner old.x g g = .ok product ∧ product.toReal = .ok q ∧
    new.lastStepsize = .real step ∧
    ((Scalar.eq q 0 = true ∧ step = r.initial) ∨
      ∃ before after, C p.manifold old.x = .ok before ∧ C p.manifold new.x = .ok after ∧
        Scalar.le after (before - r.decrease * step * q) = true)

theorem searched_of_ok {v : Visit ε α} {k : Nat} {b : Bool} {t : Session ε α}
    (hperformed : v.outcome = (Call.step k).perform p o descent v.before)
    (hrule : o.stepsize = .armijo r) (ht : v.outcome = .ok b t) :
    ∃ step w, v.Searched p o r k step w := by
  obtain ⟨u, hstep, -⟩ := step_of_perform (hperformed.symm.trans ht)
  obtain ⟨answer, w, _, _, _, _, _, hasked, -⟩ := step_parts hstep
  rw [hrule] at hasked
  obtain ⟨step, -, hfound⟩ := Stepsize.next_armijo_eq_ok_iff.mp hasked
  exact ⟨step, w, hperformed, hrule, hfound⟩

theorem Visit.Searched.decreases {v : Visit ε α} {k : Nat} {step : α} {w : Workshop ε} {b : Bool}
    {t : Session ε α} (h : v.Searched p o r k step w) (hG : HasGradient p G) (hC : HasCost p C)
    (hmove : r.move = fun M x u => settled (R M x u)) (hsame : carrier o = .ok r.move)
    (hcurrent : Current p G v.before.state.position) (ht : v.outcome = .ok b t) :
    Decreases p r G C v.before.state.position t.state.position := by
  have hR : carrier o = .ok fun M x u => settled (R M x u) := by
    rw [hsame, hmove]
  obtain ⟨g, start, q, hmeasured, hflat, haccepts⟩ := Armijo.next_ok h.found
  obtain ⟨env, env', hgradient⟩ := hmeasured.gradient
  obtain ⟨product, hinner, hq⟩ := hmeasured.inner
  have hg : G p.manifold v.before.state.x = .ok g := gradientOf_of_current hG hcurrent hgradient
  obtain ⟨u, -, -, hlast⟩ := h.carries hR ht
  refine ⟨g, product, q, step, hg, hinner, hq, hlast, ?_⟩
  cases hzero : Scalar.eq q 0 with
  | true => exact .inl ⟨rfl, hflat hzero⟩
  | false =>
    obtain ⟨u, y, value, haccepted⟩ := haccepts hzero
    have hrealises := h.realises hmove hR hmeasured haccepted
    -- the solver is where the search tested the cost
    have hx : t.state.x = y := hrealises.realised rfl b t ht
    obtain ⟨_, _, hstart⟩ := hmeasured.cost
    obtain ⟨_, _, hvalue⟩ := haccepted.tested
    obtain ⟨hbefore, -⟩ := (costAt_eq_ok_iff hC).mp hstart
    obtain ⟨hafter, -⟩ := (costAt_eq_ok_iff hC).mp hvalue
    rw [← hx] at hafter
    exact .inr ⟨start, value, hbefore, hafter, haccepted.accepted⟩

/-- The law of decrease. Every step of a descent with a search brings the cost down sufficiently, and
a search that fails ends the run: it fails as the search did, no observer is told of a stop and no
reason for one is noted. -/
theorem decrease_law (hG : HasGradient p G) (hC : HasCost p C) (hrule : o.stepsize = .armijo r)
    (hmove : r.move = fun M x u => settled (R M x u)) (hsame : carrier o = .ok r.move)
    (fuel : Nat) (s : Session ε α) :
    (∀ v ∈ history fuel p o chain descent s, ∀ k b t, v.call = .step k → v.outcome = .ok b t →
      Decreases p r G C v.before.state.position t.state.position) ∧
    ∀ v ∈ history fuel p o chain descent s, ∀ (k : Nat) e w, v.call = .step k →
      r.next v.before.settings p v.before.state.position (.whole k)
        ⟨v.before.env, v.before.journal⟩ = .error e w →
      ∃ t, solve fuel p o chain descent s = .error e t ∧ t.state.stopReason = .text "" ∧
        ∀ u ∈ history fuel p o chain descent s,
          u.before.state.stopReason = .text "" ∧ ∀ n d, u.call ≠ .hook .stop n d := by
  have hfollows : ∀ v ∈ history fuel p o chain descent s, v.Follows p o G :=
    ((invariant_descent hG).history fuel s).1
  constructor
  · intro v hv k b t hk ht
    have hcurrent : Current p G v.before.state.position :=
      (hfollows v hv).current (by rw [hk]; exact nofun)
    have hperformed : v.outcome = (Call.step k).perform p o descent v.before := by
      rw [← hk]
      exact outcome_of_mem_history hv
    obtain ⟨step, w, hsearched⟩ := searched_of_ok hperformed hrule ht
    exact hsearched.decreases hG hC hmove hsame hcurrent ht
  · intro v hv k e w hk hfails
    have hasked : o.stepsize.next v.before.settings p v.before.state.position (.whole k)
        ⟨v.before.env, v.before.journal⟩ = .error e w := by
      rw [hrule]
      exact Stepsize.next_armijo_error hfails
    obtain ⟨t, ht⟩ := (hfollows v hv).asks k e w hk hasked
    obtain ⟨hsolve, -, hearly, hrunning⟩ := solve_of_failed_step hv hk ht
    exact ⟨t, hsolve, hrunning, fun u hu => ⟨(hearly u hu).running, (hearly u hu).call⟩⟩

def squares : Manifold Float → Point Float → Answer Float Float := fun _ x => refusing do
  let entries ← x.square
  let total ← entries.sum
  let sum ← total.toReal
  .ok (Scalar.times 1 sum)

def doubled : Manifold Float → Point Float → Answer Float (Point Float) := fun _ x =>
  refusing ((Datum.real 2).mul x)

def hasty : Armijo Unit Float := { halving with budget := .whole 0 }

/-- The first step of the descent is shorter than the initial one: a later trial was accepted. -/
theorem decrease_law_valley :
    (∃ v ∈ history 1 valley (searching halving .standard) [] descent hillside, v.call = .step 1 ∧
      ∃ b t, v.outcome = .ok b t ∧
        Decreases valley halving doubled squares v.before.state.position t.state.position ∧
        ∃ step, t.state.position.lastStepsize = .real step ∧ step ≠ halving.initial) ∧
    ∃ e t, solve 1 valley (searching hasty .standard) [] descent hillside = .error e t ∧
      t.state.stopReason = .text "" := by
  have hG : HasGradient valley doubled := rfl
  have hC : HasCost valley squares := rfl
  constructor
  · obtain ⟨v, hv, hk, b, t, ht, step, hstep, hne⟩ :
        ∃ v ∈ history 1 valley (searching halving .standard) [] descent hillside,
          v.call = .step 1 ∧ ∃ b t, v.outcome = .ok b t ∧
            ∃ step, t.state.position.lastStepsize.toReal = .ok step ∧ step ≠ halving.initial := by
      decide +kernel
    have hdecreases := (decrease_law hG hC rfl rfl rfl 1 hillside).1 v hv 1 b t hk ht
    have hlast : t.state.position.lastStepsize = .real step := by
      obtain ⟨_, _, _, noted, -, -, -, hnoted, -⟩ := hdecreases
      rw [hnoted] at hstep ⊢
      rw [Except.ok.inj hstep]
    exact ⟨v, hv, hk, b, t, ht, hdecreases, step, hlast, hne⟩
  · obtain ⟨v, hv, hk, hfails⟩ :
        ∃ v ∈ history 1 valley (searching hasty .standard) [] descent hillside,
          v.call = .step 1 ∧ ¬ ∃ step w, hasty.next v.before.settings valley
            v.before.state.position (.whole 1) ⟨v.before.env, v.before.journal⟩ =
              .ok step w ∧ True := by
      decide +kernel
    rcases hnext : hasty.next v.before.settings valley v.before.state.position (.whole 1)
      ⟨v.before.env, v.before.journal⟩ with ⟨step, w⟩ | ⟨e, w⟩
    · exact absurd ⟨step, w, hnext, trivial⟩ hfails
    · obtain ⟨t, hsolve, hreason, -⟩ :=
        (decrease_law hG hC rfl rfl rfl 1 hillside).2 v hv 1 e w hk hnext
      exact ⟨e, t, hsolve, hreason⟩

end Geodescent.Solver
