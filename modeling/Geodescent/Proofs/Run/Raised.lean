import Geodescent.Proofs.Descent.Step
import Geodescent.Proofs.Run.Course
import Geodescent.Proofs.Sweep.Application

/-! What can fail inside a step. A step of a library solver fails exactly when the step rule, the
check of its answer, a map or an oracle that it calls fails, and with the very same fault:
`raises_iff`. -/
namespace Geodescent.Solver
variable {ε α : Type} [Scalar α] {p : Problem ε α} {o : Options ε α} {settings : Settings α}
  {k : Int} {s : Stepping ε α} {e : Fault α}

instance (e : Fault α) (message : String) : Decidable (e = .oracle message) :=
  match e with
  | .oracle m => decidable_of_iff (m = message) ⟨congrArg Fault.oracle, Fault.oracle.inj⟩
  | .misuse _ | .unusableStep .. | .exhausted .. | .invalidPoint .. | .missing _
  | .dimensionNotPositive .. | .dimensionNotWhole .. | .noData | .noSamples _ | .undecorated
  | .refused _ | .unfinished => .isFalse nofun

/-- The rule fails, or its answer is not usable. -/
inductive RuleRaises (p : Problem ε α) (o : Options ε α) (settings : Settings α) (k : Int)
    (allowZero : Bool) (s : Stepping ε α) (e : Fault α) : Prop
  | rule {w : Workshop ε}
      (fails : o.stepsize.next settings p s.position (.whole k) ⟨s.env, s.journal⟩ = .error e w)
  | check {answer : Datum α} {w : Workshop ε}
      (answers : o.stepsize.next settings p s.position (.whole k) ⟨s.env, s.journal⟩ = .ok answer w)
      (fails : Stepsize.check answer k allowZero = .error e)

/-- What fails in a step of gradient descent: the rule or the check, the retraction, or the gradient
at the new point. -/
inductive DescentRaises (p : Problem ε α) (o : Options ε α) (settings : Settings α) (k : Int)
    (s : Stepping ε α) (e : Fault α) : Prop
  | length (fails : RuleRaises p o settings k true s e)
  | carrier {step : α} {t : Stepping ε α} (length : nextStep settings p o k true s = .ok step t)
      (fails : carrier o = .error e)
  | direction {step : α} {t : Stepping ε α} {R : Retraction ε α}
      (length : nextStep settings p o k true s = .ok step t) (carrier : carrier o = .ok R)
      (fails : downhill step t.position = .error e)
  | retraction {step : α} {t : Stepping ε α} {R : Retraction ε α} {v : Point α} {env : ε}
      (length : nextStep settings p o k true s = .ok step t) (carrier : carrier o = .ok R)
      (direction : downhill step t.position = .ok v)
      (fails : R p.manifold t.position.x v t.env = .error e env)
  | gradient {step : α} {t : Stepping ε α} {R : Retraction ε α} {v y : Point α} {env env' : ε}
      (length : nextStep settings p o k true s = .ok step t) (carrier : carrier o = .ok R)
      (direction : downhill step t.position = .ok v)
      (moves : R p.manifold t.position.x v t.env = .ok y env)
      (fails : p.gradientAt y env = .error e env')

/-- What fails in a sweep: the rule or the check, or one of the proximal maps. -/
inductive SweepRaises (p : Problem ε α) (o : Options ε α) (settings : Settings α) (k : Int)
    (s : Stepping ε α) (e : Fault α) : Prop
  | length (fails : RuleRaises p o settings k false s e)
  | maps {step : α} {t : Stepping ε α} (length : nextStep settings p o k false s = .ok step t)
      (fails : p.maps = .error e)
  | application {step : α} {t : Stepping ε α} {fs : List (ProximalMap ε α)} {env : ε}
      {a : Application ε α} (length : nextStep settings p o k false s = .ok step t)
      (maps : p.maps = .ok fs)
      (called : a ∈ (Narrated.applyMaps p.manifold (Narrated.weightOf step fs) fs t.position.x
        t.env).1)
      (fails : a.outcome = .error e env)

theorem nextStep_error {allowZero : Bool} {t : Stepping ε α}
    (h : nextStep settings p o k allowZero s = .error e t) :
    t.position = s.position ∧ RuleRaises p o settings k allowZero s e := by
  unfold nextStep at h
  rw [get_bind] at h
  rcases sequence_eq_error_iff.mp h with hrun | ⟨answer, u, hrun, h₁⟩
  · obtain ⟨w, hrule, rfl⟩ := (Part.run_eq_error_iff _).mp hrun
    exact ⟨rfl, .rule hrule⟩
  · obtain ⟨w, hrule, rfl⟩ := (Part.run_eq_ok_iff _).mp hrun
    rcases sequence_eq_error_iff.mp h₁ with hcheck | ⟨step, u, -, h₂⟩
    · obtain ⟨hfails, rfl⟩ := settled_eq_error_iff.mp hcheck
      exact ⟨rfl, .check hrule hfails⟩
    · cases h₂

theorem nextStep_error_iff {allowZero : Bool} :
    (∃ t, nextStep settings p o k allowZero s = .error e t) ↔
      RuleRaises p o settings k allowZero s e := by
  constructor
  · rintro ⟨t, h⟩
    exact (nextStep_error h).2
  · intro h
    cases h with
    | rule fails =>
      have hrun := Part.run_of_error (Stepping.workshop ε α) fails
      exact ⟨_, sequence_eq_error_iff.mpr (.inr ⟨s, s, rfl, sequence_eq_error_iff.mpr (.inl hrun)⟩)⟩
    | @check answer w answers fails =>
      have hrun := Part.run_of_ok (Stepping.workshop ε α) answers
      refine ⟨(Stepping.workshop ε α).set w s, ?_⟩
      unfold nextStep
      rw [get_bind, bind_of_ok hrun, fails]
      rfl

omit [Scalar α] in
theorem refreshGradient_error {t : Stepping ε α} (h : refreshGradient p s = .error e t) :
    t.position = s.position ∧ ∃ env, p.gradientAt s.position.x s.env = .error e env := by
  unfold refreshGradient at h
  rw [get_bind] at h
  rcases sequence_eq_error_iff.mp h with hrun | ⟨g, u, -, h₁⟩
  · obtain ⟨env, horacle, rfl⟩ := (Part.run_eq_error_iff _).mp hrun
    exact ⟨rfl, env, horacle⟩
  · cases h₁

omit [Scalar α] in
theorem refreshGradient_error_iff : (∃ t, refreshGradient p s = .error e t) ↔
    ∃ env, p.gradientAt s.position.x s.env = .error e env := by
  constructor
  · rintro ⟨t, h⟩
    exact (refreshGradient_error h).2
  · rintro ⟨env, horacle⟩
    have hrun := Part.run_of_error (Stepping.surroundings ε α) horacle
    exact ⟨_, sequence_eq_error_iff.mpr (.inr ⟨s, s, rfl, sequence_eq_error_iff.mpr (.inl hrun)⟩)⟩

theorem descent_step_error_iff :
    (∃ t, descent.step settings p o k s = .error e t) ↔ DescentRaises p o settings k s e := by
  constructor
  -- part by part: what comes before the part that fails has succeeded
  · rintro ⟨u, h⟩
    rcases sequence_eq_error_iff.mp h with hnext | ⟨step, t, hnext, h₁⟩
    · exact .length (nextStep_error_iff.mp ⟨u, hnext⟩)
    rcases sequence_eq_error_iff.mp h₁ with hcarrier | ⟨R, t', hcarrier, h₂⟩
    · exact .carrier hnext (settled_eq_error_iff.mp hcarrier).1
    obtain ⟨hR, rfl⟩ := settled_eq_ok_iff.mp hcarrier
    rw [get_bind] at h₂
    rcases sequence_eq_error_iff.mp h₂ with hdown | ⟨v, t, hdown, h₃⟩
    · exact .direction hnext hR (settled_eq_error_iff.mp hdown).1
    obtain ⟨hv, rfl⟩ := settled_eq_ok_iff.mp hdown
    rcases sequence_eq_error_iff.mp h₃ with hmove | ⟨y, t', hmove, h₄⟩
    · obtain ⟨env, hfails, -⟩ := (Part.run_eq_error_iff _).mp hmove
      exact .retraction hnext hR hv hfails
    obtain ⟨env, hmoves, rfl⟩ := (Part.run_eq_ok_iff _).mp hmove
    obtain ⟨env', hfails⟩ := refreshGradient_error_iff.mp ⟨u, h₄⟩
    exact .gradient hnext hR hv hmoves hfails
  · intro h
    unfold descent
    dsimp only
    cases h with
    | length fails =>
      obtain ⟨t, hnext⟩ := nextStep_error_iff.mpr fails
      exact ⟨t, bind_of_error hnext⟩
    | @carrier step t length fails =>
      refine ⟨t, ?_⟩
      rw [bind_of_ok length, fails]
      rfl
    | @direction step t R length carrier fails =>
      refine ⟨t, ?_⟩
      rw [bind_of_ok length, carrier, settled_ok_bind, get_bind, fails]
      rfl
    | @retraction step t R v env length carrier direction fails =>
      refine ⟨(Stepping.surroundings ε α).set env t, ?_⟩
      rw [bind_of_ok length, carrier, settled_ok_bind, get_bind, direction,
        settled_ok_bind]
      exact bind_of_error (Part.run_of_error (Stepping.surroundings ε α) fails)
    | gradient length carrier direction moves fails =>
      rw [bind_of_ok length, carrier, settled_ok_bind, get_bind, direction,
        settled_ok_bind, bind_of_ok (Part.run_of_ok (Stepping.surroundings ε α) moves)]
      exact refreshGradient_error_iff.mpr ⟨_, fails⟩

section Sweep
variable {M : Manifold α} {weight : α} {fs : List (ProximalMap ε α)} {x : Point α} {env : ε}

omit [Scalar α] in
theorem applyMaps_error_iff : (∃ env', applyMaps M weight fs x env = .error e env') ↔
    ∃ a ∈ (Narrated.applyMaps M weight fs x env).1, ∃ env', a.outcome = .error e env' := by
  induction fs generalizing x env with
  | nil =>
    constructor
    · rintro ⟨env', h⟩
      cases h
    · rintro ⟨a, ha, -⟩
      exact absurd ha List.not_mem_nil
  | cons f fs ih =>
    unfold applyMaps Narrated.applyMaps
    rcases hf : f M (.real weight) x env with ⟨y, env₁⟩ | ⟨e', env₁⟩
    · have hcall : Scribe.entering (fun env r => Application.mk f (.real weight) x env r)
          (f M (.real weight) x) env = ([⟨f, .real weight, x, env, .ok y env₁⟩], .ok y env₁) :=
        Scribe.entering_eq_ok_iff.mpr ⟨hf, rfl⟩
      rw [bind_of_ok hf, Scribe.bind_of_ok hcall, ih]
      constructor
      · rintro ⟨a, ha, hfails⟩
        exact ⟨a, List.mem_cons_of_mem _ ha, hfails⟩
      · rintro ⟨a, ha, env', hfails⟩
        rcases List.mem_cons.mp ha with rfl | ha
        · cases hfails
        · exact ⟨a, ha, env', hfails⟩
    · have hcall : Scribe.entering (fun env r => Application.mk f (.real weight) x env r)
          (f M (.real weight) x) env =
            ([⟨f, .real weight, x, env, .error e' env₁⟩], .error e' env₁) :=
        Prod.ext (congrArg (fun r => [Application.mk f (.real weight) x env r]) hf) hf
      rw [bind_of_error hf, Scribe.bind_of_error hcall]
      constructor
      · rintro ⟨_, ⟨⟩⟩
        exact ⟨_, List.mem_singleton_self _, env₁, rfl⟩
      · rintro ⟨a, ha, _, hfails⟩
        rw [List.mem_singleton.mp ha] at hfails
        cases hfails
        exact ⟨env₁, rfl⟩

theorem sweep_step_error_iff :
    (∃ t, sweep.step settings p o k s = .error e t) ↔ SweepRaises p o settings k s e := by
  constructor
  · rintro ⟨u, h⟩
    rcases sequence_eq_error_iff.mp h with hnext | ⟨step, t, hnext, h₁⟩
    · exact .length (nextStep_error_iff.mp ⟨u, hnext⟩)
    rcases sequence_eq_error_iff.mp h₁ with hmaps | ⟨fs, t', hmaps, h₂⟩
    · exact .maps hnext (settled_eq_error_iff.mp hmaps).1
    obtain ⟨hfs, rfl⟩ := settled_eq_ok_iff.mp hmaps
    rw [get_bind] at h₂
    rcases sequence_eq_error_iff.mp h₂ with hrun | ⟨y, t, -, h₃⟩
    · obtain ⟨env, hfails, -⟩ := (Part.run_eq_error_iff _).mp hrun
      obtain ⟨a, ha, env', houtcome⟩ := applyMaps_error_iff.mp ⟨env, hfails⟩
      exact .application hnext hfs ha houtcome
    · cases h₃
  · intro h
    unfold sweep
    dsimp only
    cases h with
    | length fails =>
      obtain ⟨t, hnext⟩ := nextStep_error_iff.mpr fails
      exact ⟨t, bind_of_error hnext⟩
    | @maps step t length fails =>
      refine ⟨t, ?_⟩
      rw [bind_of_ok length, fails]
      rfl
    | @application step t fs env a length maps called fails =>
      obtain ⟨env', hfails⟩ := applyMaps_error_iff.mpr ⟨a, called, env, fails⟩
      refine ⟨(Stepping.surroundings ε α).set env' t, ?_⟩
      rw [bind_of_ok length, maps, settled_ok_bind, get_bind]
      exact bind_of_error (Part.run_of_error (Stepping.surroundings ε α) hfails)

end Sweep

/-- What fails inside step `k` of a library solver. -/
inductive Raises (p : Problem ε α) (o : Options ε α) (k : Nat) (s : Session ε α) (e : Fault α) :
    Solver ε α → Prop
  | descent (fails : DescentRaises p o s.settings k ((Session.stepping ε α).get s) e) :
      Raises p o k s e descent
  | sweep (fails : SweepRaises p o s.settings k ((Session.stepping ε α).get s) e) :
      Raises p o k s e sweep

theorem perform_step_error {solver : Solver ε α} {k : Nat} {s t : Session ε α}
    (h : (Call.step k).perform p o solver s = .error e t) :
    ∃ u, solver.step s.settings p o k ((Session.stepping ε α).get s) = .error e u ∧
      t = (Session.stepping ε α).set u s := by
  have h₁ : ((Session.stepping ε α).run (solver.step s.settings p o k) >>=
      fun _ => pure false) s = .error e t := h
  rcases sequence_eq_error_iff.mp h₁ with hrun | ⟨_, u, -, hpure⟩
  · exact (Part.run_eq_error_iff _).mp hrun
  · cases hpure

theorem perform_error_iff {solver : Solver ε α} {k : Nat} {s : Session ε α} :
    (∃ t, (Call.step k).perform p o solver s = .error e t) ↔
      ∃ u, solver.step s.settings p o k ((Session.stepping ε α).get s) = .error e u := by
  constructor
  · rintro ⟨t, h⟩
    obtain ⟨u, hstep, -⟩ := perform_step_error h
    exact ⟨u, hstep⟩
  · rintro ⟨u, hstep⟩
    exact perform_of_step_error hstep

theorem raises_iff {solver : Solver ε α} {k : Nat} {s : Session ε α}
    (library : solver = descent ∨ solver = sweep) :
    Raises p o k s e solver ↔ ∃ t, (Call.step k).perform p o solver s = .error e t := by
  rw [perform_error_iff]
  constructor
  · intro h
    cases h with
    | descent fails => exact descent_step_error_iff.mpr fails
    | sweep fails => exact sweep_step_error_iff.mpr fails
  · intro h
    rcases library with rfl | rfl
    · exact .descent (descent_step_error_iff.mp h)
    · exact .sweep (sweep_step_error_iff.mp h)

end Geodescent.Solver
