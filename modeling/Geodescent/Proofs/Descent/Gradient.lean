import Geodescent.Proofs.Descent.Step
import Geodescent.Proofs.Criterion.Inquiry
import Geodescent.Proofs.Run.Stop
import Geodescent.Proofs.Run.Ending
import Geodescent.Manifold.Euclidean

/-! Gradient descent keeps its gradient up to date. Wherever a rule, an observer or a criterion looks,
the gradient is the one at the present point: `descent_law`. -/
namespace Geodescent.Solver
variable {ε α : Type} [Scalar α] {p : Problem ε α} {o : Options ε α}
  {G : Manifold α → Point α → Answer α (Point α)} {chain : List (Decorator ε α)}
  {s t : Session ε α} {k : Nat} {b : Bool}

theorem perform_descent_prepare (hG : HasGradient p G)
    (h : Call.prepare.perform p o descent s = .ok b t) : Current p G t.state.position := by
  obtain ⟨_, u, hrun, h₁⟩ := sequence_eq_ok_iff.mp h
  cases h₁
  obtain ⟨r, hprepare, rfl⟩ := (Part.run_eq_ok_iff _).mp hrun
  exact prepare_ok hG hprepare

theorem perform_descent_step (hG : HasGradient p G) (hs : Current p G s.state.position)
    (h : (Call.step k).perform p o descent s = .ok b t) : Current p G t.state.position ∧
      Descends p o G s.settings k ⟨s.env, s.journal⟩ s.state.position t.state.position := by
  obtain ⟨u, hstep, hposition⟩ := step_of_perform h
  rw [hposition]
  exact step_ok hG hs hstep

theorem perform_of_rule_error {e : Fault α} {w : Workshop ε}
    (h : o.stepsize.next s.settings p s.state.position (.whole k) ⟨s.env, s.journal⟩ =
      .error e w) : ∃ t, (Call.step k).perform p o descent s = .error e t := by
  obtain ⟨r, hstep⟩ := step_of_rule_error (s := (Session.stepping ε α).get s) h
  exact perform_of_step_error hstep

/-- What holds of the calls of gradient descent after the first. -/
structure Visit.Follows (p : Problem ε α) (o : Options ε α)
    (G : Manifold α → Point α → Answer α (Point α)) (v : Visit ε α) : Prop where
  current : v.call ≠ .prepare → Current p G v.before.state.position
  descends : ∀ k b t, v.call = .step k → v.outcome = .ok b t →
    Current p G t.state.position ∧ Descends p o G v.before.settings k
      ⟨v.before.env, v.before.journal⟩ v.before.state.position t.state.position
  asks : ∀ (k : Nat) e w, v.call = .step k → o.stepsize.next v.before.settings p
      v.before.state.position (.whole k) ⟨v.before.env, v.before.journal⟩ = .error e w →
    ∃ t, v.outcome = .error e t

theorem invariant_descent (hG : HasGradient p G) :
    Invariant p o descent (fun s => Current p G s.state.position) (Visit.Follows p o G) where
  books s t h hs := by
    rw [h.position]
    exact hs
  opening s := ⟨fun h => absurd rfl h, nofun, nofun⟩
  prepared s b t h := perform_descent_prepare hG h
  noted c s hc hs := by
    refine ⟨fun _ => hs, fun k b t hk h => ?_, fun k e w hk h => ?_⟩
    · cases hk
      exact perform_descent_step hG hs h
    · cases hk
      exact perform_of_rule_error h
  kept c s b t hc hs h := by
    cases c with
    | prepare => exact absurd rfl hc
    | hook phase k d =>
      rw [(perform_hook h).2.1]
      exact hs
    | judge k =>
      rw [perform_judge h]
      exact hs
    | step k => exact (perform_descent_step hG hs h).1

theorem norm_lt_of_smallGradient {threshold : α} {text : String} {state : State α} {i : Int}
    (h : Check.smallGradient threshold p state i = .ok (Check.told text)) :
    ∃ size, p.manifold.norm state.x state.gradient = .ok size ∧
      Scalar.lt size threshold = true := by
  unfold Check.smallGradient at h
  split at h
  · cases Except.ok.inj h
  · obtain ⟨size, hsize, hfound⟩ := bind_eq_ok_iff.mp h
    refine ⟨size, hsize, ?_⟩
    cases hlt : Scalar.lt size threshold with
    | true => rfl
    | false =>
      rw [hlt] at hfound
      cases hfound

theorem norm_lt_of_checked {id : Nat} {threshold : α} {text : String} {state : State α} {i : Int}
    {c : Criterion ε α} {j : Judging ε α}
    (h : .checked id (.gradientNorm threshold) (.ok (Check.told text)) ∈
      (Criterion.Narrated.ask p state i c j).1) :
    ∃ size, p.manifold.norm state.x state.gradient = .ok size ∧
      Scalar.lt size threshold = true := by
  obtain ⟨j', htest⟩ := (Criterion.genuine_ask p state i c j trivial).1 _ h
  change given (settled (Check.smallGradient threshold p state i) j') = _ at htest
  have hfound : Check.smallGradient threshold p state i = .ok (Check.told text) := by
    rcases hsmall : Check.smallGradient threshold p state i with e | finding
    · rw [hsmall] at htest
      cases htest
    · rw [hsmall] at htest
      exact htest
  exact norm_lt_of_smallGradient hfound

def Visit.events (p : Problem ε α) (o : Options ε α) (k : Nat) (v : Visit ε α) :
    List (Event ε α) :=
  (Criterion.Narrated.ask p v.before.state (Int.ofNat k) o.criterion
    ⟨v.before.env, v.before.nodes⟩).1

/-- The law of gradient descent. In every call the gradient is the one at the present point, every
step descends along it, and where a small gradient stopped the run it is small at the end. -/
theorem descent_law (hG : HasGradient p G) (fuel : Nat) (s : Session ε α) :
    (∀ v ∈ history fuel p o chain descent s, v.Follows p o G) ∧
    ∀ t, solve fuel p o chain descent s = .ok () t →
      Current p G t.state.position ∧
      ∀ v ∈ history fuel p o chain descent s, v.Stops → ∀ k id threshold text,
        v.call = .judge k →
        .checked id (.gradientNorm threshold) (.ok (Check.told text)) ∈ v.events p o k →
        ∃ g size, G p.manifold t.state.x = .ok g ∧ p.manifold.norm t.state.x g = .ok size ∧
          Scalar.lt size threshold = true := by
  have inv := invariant_descent (o := o) hG
  have hend : ∀ t, solve fuel p o chain descent s = .ok () t → Current p G t.state.position :=
    (inv.history fuel s).2
  refine ⟨(inv.history fuel s).1, fun t ht => ⟨hend t ht, ?_⟩⟩
  intro v hv hstops k id threshold text hk hfired
  -- the criterion looked at the position with which the run ends
  obtain ⟨size, hsize, hlt⟩ := norm_lt_of_checked hfired
  have hposition := position_of_stops ht hv hstops
  have hcurrent : Current p G t.state.position := hend t ht
  have hx : v.before.state.x = t.state.x := (congrArg Position.x hposition).symm
  have hg : v.before.state.gradient = t.state.gradient := (congrArg Position.gradient hposition).symm
  rw [hx, hg] at hsize
  exact ⟨t.state.gradient, size, hcurrent, hsize, hlt⟩

def bowl : Problem Unit Float :=
  ⟨Manifold.euclideanOf (.whole 1), fun _ _ => pure 0, .gradient fun _ x => settled (.ok x)⟩

def slide : Options Unit Float :=
  ⟨.descent .standard, .any 0 [.atom 1 (.gradientNorm 1), .atom 2 (.cap 3)], .constant 1⟩

def rim : Session Unit Float := .start () .standard (.start (.array ⟨[1], .whole [2]⟩))

instance [DecidableEq α] (id : Nat) (threshold : α) (e : Event ε α) :
    Decidable (∃ text, e = .checked id (.gradientNorm threshold) (.ok (Check.told text))) :=
  match e with
  | .checked i (.gradientNorm size) (.ok (some (.ok text))) =>
    decidable_of_iff (i = id ∧ size = threshold)
      ⟨fun ⟨hi, hsize⟩ => ⟨text, by rw [hi, hsize]; rfl⟩, fun ⟨_, h⟩ => by cases h; exact ⟨rfl, rfl⟩⟩
  | .checked _ _ (.ok none) | .checked _ _ (.ok (some (.error _))) | .checked _ _ (.error _)
  | .checked _ (.cap _) _ | .checked _ (.change _) _ | .checked _ (.elapsed _ _) _
  | .checked _ (.flag _ _) _ | .checked _ (.custom _ _ _) _ | .checked _ (.value _) _
  | .answered _ _ => .isFalse fun ⟨_, h⟩ => by cases h

theorem descent_law_bowl :
    (∃ v ∈ history 3 bowl slide [.plain] descent rim, v.call = .step 1 ∧ ∃ b t,
      v.outcome = .ok b t ∧ Current bowl (fun _ x => .ok x) t.state.position ∧
        Descends bowl slide (fun _ x => .ok x) v.before.settings 1 ⟨v.before.env, v.before.journal⟩
          v.before.state.position t.state.position) ∧
    ∃ t, solve 3 bowl slide [.plain] descent rim = .ok () t ∧
      (∃ v ∈ history 3 bowl slide [.plain] descent rim, v.StopsAfter 1 ∧ ∃ text,
        .checked 1 (.gradientNorm 1) (.ok (Check.told text)) ∈ v.events bowl slide 1) ∧
      ∃ size, bowl.manifold.norm t.state.x t.state.x = .ok size ∧ Scalar.lt size 1 = true := by
  have hG : HasGradient bowl fun _ x => .ok x := rfl
  obtain ⟨hfollows, hstop⟩ := @descent_law _ _ _ bowl slide _ [.plain] hG 3 rim
  constructor
  · obtain ⟨v, hv, hk, b, t, ht, -⟩ : ∃ v ∈ history 3 bowl slide [.plain] descent rim,
        v.call = .step 1 ∧ ∃ b t, v.outcome = .ok b t ∧ True := by decide +kernel
    exact ⟨v, hv, hk, b, t, ht, (hfollows v hv).descends 1 b t hk ht⟩
  · obtain ⟨_, t, ht, -⟩ : ∃ b t, solve 3 bowl slide [.plain] descent rim = .ok b t ∧ True := by
      decide +kernel
    obtain ⟨v, hv, hafter, _, hfired, text, rfl⟩ : ∃ v ∈ history 3 bowl slide [.plain] descent rim,
        v.StopsAfter 1 ∧ ∃ e ∈ v.events bowl slide 1, ∃ text,
          e = .checked 1 (.gradientNorm 1) (.ok (Check.told text)) := by decide +kernel
    obtain ⟨hk, w, hw⟩ := hafter
    obtain ⟨-, hsmall⟩ := hstop t ht
    obtain ⟨g, size, hg, hsize, hlt⟩ := hsmall v hv ⟨1, w, hk, hw⟩ 1 1 1 text hk hfired
    cases hg
    exact ⟨t, ht, ⟨v, hv, ⟨hk, w, hw⟩, text, hfired⟩, size, hsize, hlt⟩

end Geodescent.Solver
