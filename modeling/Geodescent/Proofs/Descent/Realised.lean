import Geodescent.Proofs.Descent.Gradient
import Geodescent.Proofs.Run.Abort
import Geodescent.Proofs.Stepsize.Backtracking
import Geodescent.Simulation.Oracles

/-! Steps whose length a line search has found. The search and the solver carry the point along the
same tangent vector, each by a map of its own. Where the two maps agree on it the solver goes to the
very point at which the search tested the cost: `realised_law`. -/
namespace Geodescent

theorem settled_injective {σ φ β : Type} {a b : Except φ β} {s : σ}
    (h : (settled a : EStateM φ σ β) s = settled b s) : a = b := by
  rcases a with e | x <;> rcases b with e' | y <;> cases h <;> rfl

namespace Solver
variable {ε α : Type} [Scalar α] {p : Problem ε α} {o : Options ε α} {r : Armijo ε α}
  {R T : Manifold α → Point α → Point α → Answer α (Point α)} {chain : List (Decorator ε α)}

section Step
variable {settings : Settings α} {k : Int} {s t : Stepping ε α} {w : Workshop ε} {step : α}
  {u y : Point α}

omit [Scalar α] in
theorem left_refreshGradient (s : Stepping ε α) :
    (left (refreshGradient p s)).position.x = s.position.x ∧
      (left (refreshGradient p s)).position.lastStepsize = s.position.lastStepsize := by
  let ask : Stepwise ε α (Point α) :=
    (Stepping.surroundings ε α).run (p.gradientAt s.position.x)
  have hasks : refreshGradient p s = (ask >>= fun g =>
      modify (Stepping.place fun position => { position with gradient := g })) s := rfl
  have hleft : (left (ask s)).position = s.position := by
    rw [left_run]
    rfl
  rw [hasks]
  -- asking leaves the position alone, whether an answer comes or not
  rcases hask : ask s with ⟨g, t⟩ | ⟨e, t⟩
  · rw [hask] at hleft
    have hposition : t.position = s.position := hleft
    rw [bind_of_ok hask, ← hposition]
    exact ⟨rfl, rfl⟩
  · rw [hask] at hleft
    have hposition : t.position = s.position := hleft
    rw [bind_of_error hask, ← hposition]
    exact ⟨rfl, rfl⟩

theorem step_eq_refreshGradient {answer : Datum α} {M : Retraction ε α} {env : ε}
    (hrule : o.stepsize.next settings p s.position (.whole k) ⟨s.env, s.journal⟩ = .ok answer w)
    (hcheck : Stepsize.check answer k true = .ok step) (hcarrier : carrier o = .ok M)
    (hu : (Datum.real (-step)).mul s.position.gradient = .ok u)
    (hmove : M p.manifold s.position.x u w.env = .ok y env) :
    descent.step settings p o k s = refreshGradient p ⟨env, w.journal,
      { s.position with x := y, lastStepsize := .real step }⟩ := by
  let noted : Stepping ε α :=
    ⟨w.env, w.journal, { s.position with lastStepsize := .real step }⟩
  have hnext : nextStep settings p o k true s = .ok step noted := nextStep_eq hrule hcheck
  have hresolve : (settled (carrier o) : Stepwise ε α _) noted = .ok M noted :=
    settled_eq_ok_iff.mpr ⟨hcarrier, rfl⟩
  have hdown : (settled (downhill step noted.position) : Stepwise ε α _) noted = .ok u noted :=
    settled_eq_ok_iff.mpr ⟨refusing_eq_ok_iff.mpr hu, rfl⟩
  have hcarry : (Stepping.surroundings ε α).run (M p.manifold noted.position.x u) noted =
      .ok y ⟨env, w.journal, noted.position⟩ :=
    Part.run_of_ok (Stepping.surroundings ε α) hmove
  unfold descent
  dsimp only
  rw [bind_of_ok hnext, bind_of_ok hresolve, get_bind, bind_of_ok hdown, bind_of_ok hcarry]
  rfl

theorem step_moves
    (hrule : o.stepsize.next settings p s.position (.whole k) ⟨s.env, s.journal⟩ =
      .ok (.real step) w)
    (husable : Stepsize.usable step true = true)
    (hcarrier : carrier o = .ok fun M x u => settled (R M x u))
    (hu : (Datum.real (-step)).mul s.position.gradient = .ok u)
    (hy : R p.manifold s.position.x u = .ok y) :
    (left (descent.step settings p o k s)).position.x = y ∧
      (left (descent.step settings p o k s)).position.lastStepsize = .real step := by
  have hcheck : Stepsize.check (.real step) k true = .ok step :=
    Stepsize.check_real_eq_ok_iff.mpr ⟨rfl, husable⟩
  have hmove : (settled (R p.manifold s.position.x u) : Asking ε α _) w.env = .ok y w.env :=
    settled_eq_ok_iff.mpr ⟨hy, rfl⟩
  rw [step_eq_refreshGradient hrule hcheck hcarrier hu hmove]
  exact left_refreshGradient _

omit [Scalar α] in
theorem refreshGradient_keeps (h : refreshGradient p s = .ok () t) :
    t.position.x = s.position.x ∧ t.position.lastStepsize = s.position.lastStepsize := by
  obtain ⟨g, env, -, rfl⟩ := refreshGradient_eq_ok_iff.mp h
  exact ⟨rfl, rfl⟩

theorem step_carries
    (hrule : o.stepsize.next settings p s.position (.whole k) ⟨s.env, s.journal⟩ =
      .ok (.real step) w)
    (hcarrier : carrier o = .ok fun M x u => settled (R M x u))
    (h : descent.step settings p o k s = .ok () t) :
    ∃ u, (Datum.real (-step)).mul s.position.gradient = .ok u ∧
      R p.manifold s.position.x u = .ok t.position.x ∧ t.position.lastStepsize = .real step := by
  obtain ⟨answer, w', length, M, u, y, env, hasked, hcheck, hresolved, hu, hmove, hrefresh⟩ :=
    step_parts h
  cases hrule.symm.trans hasked
  obtain ⟨rfl, -⟩ := Stepsize.check_real_eq_ok_iff.mp hcheck
  cases hcarrier.symm.trans hresolved
  obtain ⟨hy, -⟩ := settled_eq_ok_iff.mp hmove
  obtain ⟨hx, hlast⟩ := refreshGradient_keeps hrefresh
  refine ⟨u, hu, ?_, hlast⟩
  rw [hx]
  exact hy

end Step

theorem mul_none (c : α) : (Datum.real c).mul .none = .error .wrongType := rfl

omit [Scalar α] in
theorem gradientOf_of_kept {s : Position α} (hs : s.gradient ≠ .none) :
    Armijo.gradientOf p s = pure s.gradient := by
  unfold Armijo.gradientOf
  split
  · exact absurd ‹_› hs
  · rfl

/-- A rule and options that are given the same retraction carry points by the same map. -/
theorem carrier_of_make {choice : RetractionChoice ε α}
    {initial contraction decrease budget : Datum α}
    (hmake : Armijo.make initial choice contraction decrease budget = .ok r)
    (ho : o.flavour = .descent choice) : carrier o = .ok r.move := by
  unfold Armijo.make at hmake
  obtain ⟨_, -, h₁⟩ := bind_eq_ok_iff.mp hmake
  obtain ⟨move, hresolve, h₂⟩ := bind_eq_ok_iff.mp h₁
  obtain ⟨_, -, h₃⟩ := bind_eq_ok_iff.mp h₂
  obtain ⟨_, -, h₄⟩ := bind_eq_ok_iff.mp h₃
  obtain ⟨_, -, h₅⟩ := bind_eq_ok_iff.mp h₄
  cases h₅
  unfold carrier
  rw [ho]
  exact hresolve

/-- A step by `R` whose length a search has found with the map `T`: the search accepted the point `y`
at the end of the tangent vector `u`, and the solver goes along the same vector. -/
structure Visit.Realises (p : Problem ε α) (r : Armijo ε α)
    (R T : Manifold α → Point α → Point α → Answer α (Point α)) (g : Point α)
    (start slope step : α) (u y : Point α) (value : α) (v : Visit ε α) : Prop where
  accepted : r.Accepted p v.before.state.x g start slope step u y value
  tried : T p.manifold v.before.state.x u = .ok y
  carried : ∀ b t, v.outcome = .ok b t → t.state.position.lastStepsize = .real step ∧
    R p.manifold v.before.state.x u = .ok t.state.x
  realised : R p.manifold v.before.state.x u = T p.manifold v.before.state.x u →
    ∀ b t, v.outcome = .ok b t → t.state.x = y
  moved : R p.manifold v.before.state.x u = T p.manifold v.before.state.x u →
    v.before.state.gradient = g → Stepsize.usable step true = true →
    v.after.state.x = y ∧ v.after.state.position.lastStepsize = .real step

/-- Iteration `k` of a descent in which the search found a step. -/
structure Visit.Searched (p : Problem ε α) (o : Options ε α) (r : Armijo ε α) (k : Nat) (step : α)
    (w : Workshop ε) (v : Visit ε α) : Prop where
  performed : v.outcome = (Call.step k).perform p o descent v.before
  rule : o.stepsize = .armijo r
  found : r.next v.before.settings p v.before.state.position (.whole k)
    ⟨v.before.env, v.before.journal⟩ = .ok step w

namespace Visit.Searched
variable {v : Visit ε α} {k : Nat} {step : α} {w : Workshop ε} (h : v.Searched p o r k step w)
include h

theorem answered : o.stepsize.next v.before.settings p v.before.state.position (.whole k)
    ⟨v.before.env, v.before.journal⟩ = .ok (.real step) w := by
  rw [h.rule]
  exact Stepsize.next_armijo_eq_ok_iff.mpr ⟨step, rfl, h.found⟩

theorem carries {b : Bool} {t : Session ε α}
    (hR : carrier o = .ok fun M x u => settled (R M x u)) (ht : v.outcome = .ok b t) :
    ∃ u, (Datum.real (-step)).mul v.before.state.gradient = .ok u ∧
      R p.manifold v.before.state.x u = .ok t.state.x ∧
      t.state.position.lastStepsize = .real step := by
  rw [h.performed] at ht
  obtain ⟨t', hstep, hposition⟩ := step_of_perform ht
  obtain ⟨u, hu, hx, hlast⟩ := step_carries h.answered hR hstep
  have hend : t.state.x = t'.position.x := congrArg Position.x hposition
  rw [hposition, hend]
  exact ⟨u, hu, hx, hlast⟩

theorem eq_gradient {b : Bool} {t : Session ε α} {g : Point α} {start slope : α}
    (hR : carrier o = .ok fun M x u => settled (R M x u)) (ht : v.outcome = .ok b t)
    (hmeasured : Armijo.Measured p v.before.state.position g start slope) :
    g = v.before.state.gradient := by
  obtain ⟨u, hu, -, -⟩ := h.carries hR ht
  have hkept : v.before.state.gradient ≠ .none := by
    -- a missing gradient cannot be scaled
    intro hnone
    rw [hnone, mul_none] at hu
    cases hu
  obtain ⟨env, env', hgradient⟩ := hmeasured.gradient
  rw [gradientOf_of_kept hkept] at hgradient
  cases hgradient
  rfl

theorem realises {g u y : Point α} {start slope value : α}
    (hT : r.move = fun M x u => settled (T M x u))
    (hR : carrier o = .ok fun M x u => settled (R M x u))
    (hmeasured : Armijo.Measured p v.before.state.position g start slope)
    (haccepted : r.Accepted p v.before.state.x g start slope step u y value) :
    v.Realises p r R T g start slope step u y value := by
  have htried : T p.manifold v.before.state.x u = .ok y := by
    obtain ⟨env, env', hleads⟩ := haccepted.leads
    rw [hT] at hleads
    exact (settled_eq_ok_iff.mp hleads).1
  have hcarried : ∀ b t, v.outcome = .ok b t → t.state.position.lastStepsize = .real step ∧
      R p.manifold v.before.state.x u = .ok t.state.x := by
    intro b t ht
    obtain ⟨u', hu', hx, hlast⟩ := h.carries hR ht
    have hu := haccepted.vector
    -- search and step look at one gradient, hence they go along one vector
    rw [h.eq_gradient hR ht hmeasured, hu'] at hu
    cases hu
    exact ⟨hlast, hx⟩
  refine ⟨haccepted, htried, hcarried, fun hagree b t ht => ?_, fun hagree hg husable => ?_⟩
  · have hx := (hcarried b t ht).2
    rw [hagree, htried] at hx
    exact (Except.ok.inj hx).symm
  · have hu := haccepted.vector
    rw [← hg] at hu
    have hy : R p.manifold v.before.state.x u = .ok y := hagree.trans htried
    have hmoves := step_moves (s := (Session.stepping ε α).get v.before) h.answered husable hR hu hy
    rw [Visit.after, h.performed, State.x, position_perform_step]
    exact hmoves

end Visit.Searched

/-- The law of searched steps. Where the map of the search and the map of the options agree on the
tangent vector of the accepted step, the run goes on from the point at which the search tested the
cost. -/
theorem realised_law (hrule : o.stepsize = .armijo r)
    (hT : r.move = fun M x u => settled (T M x u))
    (hR : carrier o = .ok fun M x u => settled (R M x u)) (fuel : Nat) (s : Session ε α) :
    (carrier o = .ok r.move → R = T) ∧
    ∀ v ∈ history fuel p o chain descent s, ∀ (k : Nat) step w, v.call = .step k →
      r.next v.before.settings p v.before.state.position (.whole k)
        ⟨v.before.env, v.before.journal⟩ = .ok step w →
      ∃ g start slope, Armijo.Measured p v.before.state.position g start slope ∧
        (Scalar.eq slope 0 = true → step = r.initial) ∧
        (Scalar.eq slope 0 = false →
          ∃ u y value, v.Realises p r R T g start slope step u y value) := by
  constructor
  · intro hsame
    rw [hR, hT] at hsame
    funext M x u
    have hmaps := congrFun (congrFun (congrFun (Except.ok.inj hsame) M) x) u
    exact settled_injective (congrFun hmaps s.env)
  · intro v hv k step w hk hnext
    have hperformed : v.outcome = (Call.step k).perform p o descent v.before := by
      rw [← hk]
      exact outcome_of_mem_history hv
    have hsearched : v.Searched p o r k step w := ⟨hperformed, hrule, hnext⟩
    obtain ⟨g, start, slope, hmeasured, hflat, haccepts⟩ := Armijo.next_ok hnext
    refine ⟨g, start, slope, hmeasured, hflat, fun hslope => ?_⟩
    obtain ⟨u, y, value, haccepted⟩ := haccepts hslope
    exact ⟨u, y, value, hsearched.realises hT hR hmeasured haccepted⟩

def valley : Problem Unit Float :=
  ⟨Manifold.euclideanOf (.whole 2), Simulation.quadratic 1, .gradient (Simulation.scaling 2)⟩

def halving : Armijo Unit Float :=
  ⟨1, .standard, fun M x u => settled (M.exp x u), 0.5, 0.5, .none⟩

def searching (rule : Armijo Unit Float) (retraction : RetractionChoice Unit Float) :
    Options Unit Float :=
  ⟨.descent retraction, .atom 0 (.cap 1), .armijo rule⟩

def hillside : Session Unit Float :=
  .start () .standard (.start (.array ⟨[2], .whole [4, -8]⟩))

theorem realised_law_halving :
    ∃ v ∈ history 1 valley (searching halving .standard) [] descent hillside,
      ∃ g start slope step u y value,
        v.Realises valley halving Manifold.exp Manifold.exp g start slope step u y value := by
  obtain ⟨v, hv, hk, step, w, hnext, hcontracted⟩ :
      ∃ v ∈ history 1 valley (searching halving .standard) [] descent hillside, v.call = .step 1 ∧
        ∃ step w, halving.next v.before.settings valley v.before.state.position (.whole 1)
          ⟨v.before.env, v.before.journal⟩ = .ok step w ∧ step ≠ halving.initial := by
    decide +kernel
  obtain ⟨g, start, slope, -, hflat, hsearched⟩ :=
    (realised_law (R := Manifold.exp) rfl rfl rfl 1 hillside).2 v hv 1 step w hk hnext
  have hslope : Scalar.eq slope 0 = false :=
    Bool.eq_false_iff.mpr fun hzero => hcontracted (hflat hzero)
  obtain ⟨u, y, value, hrealises⟩ := hsearched hslope
  exact ⟨v, hv, g, start, slope, step, u, y, value, hrealises⟩

/-- The search goes down to the bottom of the valley and accepts the point there; the solver stays
where it is. -/
theorem not_realised_when_staying :
    ∃ v ∈ history 1 valley (searching halving (Simulation.retraction "stay")) [] descent hillside,
      v.call = .step 1 ∧ v.after.state.x = .array ⟨[2], .whole [4, -8]⟩ ∧
      ∃ step w, halving.next v.before.settings valley v.before.state.position (.whole 1)
        ⟨v.before.env, v.before.journal⟩ = .ok step w ∧ step ≠ halving.initial ∧
      ∃ u, (Datum.real (-step)).mul v.before.state.gradient = .ok u ∧
      ∃ y, valley.manifold.exp v.before.state.x u = .ok y ∧ y = .array ⟨[2], .real [0, 0]⟩ := by
  decide +kernel

end Solver
end Geodescent
