import Mathlib
import Geodescent.Outcome
import Geodescent.Proofs.Descent.Realised
import Geodescent.Proofs.Flat.Mean
import Geodescent.Proofs.Parameter.Slot
import Geodescent.Proofs.Run.Bounded
import Geodescent.Proofs.Run.Numbered
import Geodescent.Proofs.Run.Rejected

/-! Gradient descent to the mean of data in flat space, with steps of one length `s`. Every iteration
multiplies the difference to the mean by `1 - s`: `contraction_law`. -/
namespace Geodescent.Sample
open Solver
variable {ε : Type} {n : Nat} {data : Sample n} {s : ℝ} {x₀ : Space n} {p : Problem ε ℝ}
  {o : Options ε ℝ} {settings : Settings ℝ} {k : Nat} {i : Int} {u : Stepping ε ℝ}

section Orbit
variable (data : Sample n) (s : ℝ) (x₀ : Space n)

noncomputable def orbit (k : Nat) : Space n := data.mean + (1 - s) ^ k • (x₀ - data.mean)

theorem orbit_sub_mean (k : Nat) : data.orbit s x₀ k - data.mean = (1 - s) ^ k • (x₀ - data.mean) :=
  add_sub_cancel_left _ _

theorem orbit_zero : data.orbit s x₀ 0 = x₀ := by
  rw [orbit, pow_zero, one_smul, add_sub_cancel]

theorem orbit_succ (k : Nat) :
    data.orbit s x₀ (k + 1) = data.orbit s x₀ k + -s • (data.orbit s x₀ k - data.mean) := by
  rw [orbit_sub_mean, orbit, orbit, pow_succ, mul_comm, mul_smul, sub_smul, one_smul, neg_smul]
  abel

theorem orbit_one {k : Nat} (hk : 1 ≤ k) : data.orbit 1 x₀ k = data.mean := by
  rw [orbit, sub_self, zero_pow (Nat.one_le_iff_ne_zero.mp hk), zero_smul, add_zero]

theorem orbit_of_zero (k : Nat) : data.orbit 0 x₀ k = x₀ := by
  rw [orbit, sub_zero, one_pow, one_smul, add_sub_cancel]

end Orbit

/-- A problem and options with which descent goes to the mean in steps of length `s`. -/
structure Homing (data : Sample n) (s : ℝ) (p : Problem ε ℝ) (o : Options ε ℝ) : Prop where
  manifold : p.manifold = .euclideanOf (.whole n)
  gradient : HasGradient p (Distance.meanSquaredGradient data.points)
  carries : ∃ R : Retraction ε ℝ, carrier o = .ok R ∧ ∀ d (x v : Space n) env, Flat.Holds d x →
    R (.euclideanOf (.whole n)) d (Flat.point v) env = .ok (Flat.point (x + v)) env
  rule : o.stepsize = .constant s
  nonneg : 0 ≤ s

structure Reached (data : Sample n) (s : ℝ) (x₀ : Space n) (k : Nat) (q : Position ℝ) : Prop where
  x : Flat.Holds q.x (data.orbit s x₀ k)
  gradient : q.gradient = Flat.point (data.orbit s x₀ k - data.mean)
  lastStepsize : 1 ≤ k → q.lastStepsize = .real s

namespace Homing
variable (h : data.Homing s p o)
include h

theorem refreshGradient_eq {x : Space n} (hx : Flat.Holds u.position.x x) :
    refreshGradient p u =
      .ok () { u with position := { u.position with gradient := Flat.point (x - data.mean) } } := by
  refine refreshGradient_eq_ok_iff.mpr ⟨Flat.point (x - data.mean), u.env, ?_, rfl⟩
  rw [Problem.gradientAt_of_gradient h.gradient, h.manifold, data.meanSquaredGradient_eq hx]
  rfl

theorem prepare (hx : Flat.Holds u.position.x x₀) :
    ∃ u', descent.prepare p o u = .ok () u' ∧ data.Reached s x₀ 0 u'.position := by
  obtain ⟨R, hcarrier, -⟩ := h.carries
  refine ⟨_, sequence_eq_ok_iff.mpr ⟨R, u, settled_eq_ok_iff.mpr ⟨hcarrier, rfl⟩,
    h.refreshGradient_eq hx⟩, ?_⟩
  rw [← data.orbit_zero s x₀] at hx
  refine ⟨hx, ?_, fun hk => absurd hk (Nat.not_succ_le_zero 0)⟩
  rw [orbit_zero]

theorem check : Stepsize.check (.real s) i true = .ok s := by
  have hlt : Scalar.lt s 0 = false := decide_eq_false (not_lt.mpr h.nonneg)
  exact Stepsize.check_real_eq_ok_iff.mpr ⟨rfl, usable_iff.mpr ⟨rfl, hlt⟩⟩

theorem step (hq : data.Reached s x₀ k u.position) :
    ∃ u', descent.step settings p o i u = .ok () u' ∧ data.Reached s x₀ (k + 1) u'.position ∧
      ∃ d, p.manifold.dist u.position.x u'.position.x = .ok d := by
  obtain ⟨R, hcarrier, hcarries⟩ := h.carries
  have hrule : o.stepsize.next settings p u.position (.whole i) ⟨u.env, u.journal⟩ =
      .ok (.real s) ⟨u.env, u.journal⟩ := by
    rw [h.rule]
    rfl
  have hdown : (Datum.real (-s)).mul u.position.gradient =
      .ok (Flat.point (-s • (data.orbit s x₀ k - data.mean))) := by
    rw [hq.gradient, Flat.scale_point]
  have hmove : R p.manifold u.position.x (Flat.point (-s • (data.orbit s x₀ k - data.mean))) u.env =
      .ok (Flat.point (data.orbit s x₀ (k + 1))) u.env := by
    rw [h.manifold, orbit_succ]
    exact hcarries _ _ _ _ hq.x
  have hnew : Flat.Holds (Flat.point (data.orbit s x₀ (k + 1))) (data.orbit s x₀ (k + 1)) :=
    Flat.holds_point _
  refine ⟨_, (step_eq_refreshGradient hrule h.check hcarrier hdown hmove).trans
    (h.refreshGradient_eq hnew), ⟨hnew, rfl, fun _ => rfl⟩, ?_⟩
  rw [h.manifold]
  exact ⟨_, Flat.dist_point _ hq.x _⟩

theorem numbered : Numbered p o descent (fun q => Flat.Holds q.x x₀) (data.Reached s x₀) where
  prepared r b t hr hp := by
    obtain ⟨u, hu, hreached⟩ := h.prepare (u := (Session.stepping ε ℝ).get r) hr
    cases (perform_of_prepare hu).symm.trans hp
    exact hreached
  stepped k r b t hr hp := by
    obtain ⟨u, hu, hreached, -⟩ := h.step (u := (Session.stepping ε ℝ).get r) hr
    cases (perform_of_step hu).symm.trans hp
    exact hreached

variable {chain : List (Decorator ε ℝ)} {fuel : Nat} {r : Session ε ℝ} {v : Visit ε ℝ}

theorem calm (hv : v ∈ history fuel p o chain descent r)
    (found : v.Numbered chain (fun q => Flat.Holds q.x x₀) (data.Reached s x₀))
    (own : v.call = .prepare ∨ ∃ k, v.call = .step k) : v.Calm p := by
  have hout := outcome_of_mem_history hv
  rcases own with hk | ⟨k, hk⟩
  · obtain ⟨u, hu, -⟩ :=
      h.prepare (u := (Session.stepping ε ℝ).get v.before) (found.opening hk)
    rw [hk, perform_of_prepare hu] at hout
    refine ⟨_, _, hout, fun j hj => ?_⟩
    cases hk.symm.trans hj
  · have hbefore := found.before (by rw [hk]; exact nofun)
    obtain ⟨u, hu, -, hdist⟩ := h.step (u := (Session.stepping ε ℝ).get v.before) hbefore
    rw [hk, perform_of_step hu] at hout
    exact ⟨_, _, hout, fun _ _ => hdist⟩

end Homing

section Plans
variable {M : Manifold ℝ} {F : Cost ε ℝ} {G : Gradient ε ℝ}
  {choices : Choices ε ℝ} {next : Nat} {name : String} {plan : Plan ε ℝ} {length : Datum ℝ}

theorem nonneg_of_constant
    (constant : (Stepsize.makeConstant length : Answer ℝ (Stepsize ε ℝ)) = .ok (.constant s)) :
    0 ≤ s := by
  obtain ⟨x, hx, hrule⟩ := map_eq_ok_iff.mp constant
  cases hrule
  cases length with
  | whole m =>
    obtain ⟨hreal, hwithin⟩ := number_whole_eq_ok_iff.mp hx
    rw [← (ofInt?_eq_some_iff.mp hreal).2]
    exact Int.cast_nonneg (of_decide_eq_true hwithin)
  | real y =>
    obtain ⟨-, -, hwithin⟩ := number_real_eq_ok_iff.mp hx
    have hlt : Scalar.lt s 0 = false := (Bool.not_eq_true' _).mp hwithin
    exact not_lt.mp (of_decide_eq_false hlt)
  | none | truth | text | list | token | array | stream | table | thing => cases hx

theorem plan_descent_ok {retraction : RetractionChoice ε ℝ}
    (planned : Plan.descent next (some M) (.callable F) (.callable G) retraction choices = .ok plan) :
    plan.problem = ⟨M, F, .gradient G⟩ ∧ plan.solver = descent ∧
      plan.options = Options.make next (.descent retraction) choices.stepsize choices.criterion := by
  obtain ⟨q, hq, h₁⟩ := bind_eq_ok_iff.mp planned
  cases hq
  obtain ⟨attached, -, h₂⟩ := bind_eq_ok_iff.mp h₁
  cases h₂
  exact ⟨rfl, rfl, rfl⟩

theorem carries_of_named (named : name = "exp" ∨ name = "retr") :
    ∃ R : Retraction ε ℝ, (RetractionChoice.given (.text name)).resolve = .ok R ∧
      ∀ d (x v : Space n) env, Flat.Holds d x →
        R (.euclideanOf (.whole n)) d (Flat.point v) env = .ok (Flat.point (x + v)) env := by
  rcases named with rfl | rfl
  · refine ⟨_, rfl, fun d x v env hd => ?_⟩
    rw [Flat.exp_point _ hd]
    rfl
  · refine ⟨_, rfl, fun d x v env hd => ?_⟩
    rw [Flat.retract_point _ hd]
    rfl

theorem homing_of_plan (made : Manifold.euclidean (.whole n) = .ok M)
    (gradient : Distance.meanSquaredGradientOracle data.points = .ok G) (hs : 0 ≤ s)
    (chosen : choices.stepsize = some (.constant s)) (named : name = "exp" ∨ name = "retr")
    (planned : Plan.descent next (some M) (.callable F) (.callable G) (.given (.text name)) choices =
      .ok plan) : data.Homing s plan.problem plan.options := by
  obtain ⟨hproblem, -, hoptions⟩ := plan_descent_ok planned
  obtain ⟨-, -, hM⟩ := bind_eq_ok_iff.mp made
  rw [gradientOracle_eq] at gradient
  rw [hproblem, hoptions, chosen, ← Except.ok.inj gradient, ← Except.ok.inj hM]
  exact ⟨rfl, rfl, carries_of_named named, rfl, hs⟩

end Plans

section Progress
variable {chain : List (Decorator ε ℝ)} {fuel : Nat} {r : Session ε ℝ} {v : Vec ℝ} {id K : Nat}
  {b : Bool}

theorem ask_cap (p : Problem ε ℝ) (state : State ℝ) (i : Int) (id K : Nat) (j : Judging ε ℝ) :
    ∃ b j', (Criterion.atom id (.cap K)).ask p state i j = .ok b j' := by
  have hconcludes (j : Judging ε ℝ) :
      ∃ b j', ((Check.cap K).test id p state i >>= Criterion.conclude id i) j = .ok b j' := by
    by_cases hK : Int.ofNat K ≤ i
    · rw [Check.test, if_pos hK]
      exact ⟨_, _, rfl⟩
    · rw [Check.test, if_neg hK]
      exact ⟨_, _, rfl⟩
  rw [Criterion.ask]
  by_cases hi : i = 0
  · rw [if_pos hi]
    exact hconcludes _
  · rw [if_neg hi]
    exact hconcludes _

theorem validate_of_holds (h : data.Homing s p o) (start : startingPoint r.state.x = .ok v)
    (holds : Flat.Holds (.array v) x₀) (checked : r.settings.validate.holds = .ok b) :
    validate p r = .ok () (arrayed v r) := by
  have hcheck : checkPoint r.settings p v = .ok () := by
    rw [checkPoint, checked, h.manifold, Flat.contains_of_holds holds]
    cases b
    · rfl
    · rfl
  rw [validate_of_point start, hcheck]
  rfl

theorem solve_of_cap (h : data.Homing s p o) (start : startingPoint r.state.x = .ok v)
    (holds : Flat.Holds (.array v) x₀) (checked : r.settings.validate.holds = .ok b)
    (cap : o.criterion = .atom id (.cap K)) (hfuel : K ≤ fuel) :
    ∃ t, solve fuel p o [] descent r = .ok () t ∧ t.state.iteration = .whole (Int.ofNat K) := by
  have accepted := validate_of_holds h start holds checked
  have found : ∀ w ∈ history fuel p o [] descent r,
      w.Numbered [] (fun q => Flat.Holds q.x x₀) (data.Reached s x₀) := by
    refine (h.numbered.history (fun t ht => ?_) fuel).1
    cases accepted.symm.trans ht
    exact holds
  have judged {w : Visit ε ℝ} {k : Nat} (hw : w ∈ history fuel p o [] descent r)
      (hk : w.call = .judge k) : ∃ b t, w.outcome = .ok b t := by
    obtain ⟨b, j, hask⟩ := ask_cap p w.before.state (Int.ofNat k) id K
      ((Session.judging ε ℝ).get w.before)
    have hout := outcome_of_mem_history hw
    rw [hk] at hout
    rw [← cap] at hask
    exact ⟨_, _, hout.trans (Part.run_of_ok _ hask)⟩
  -- no call can fail: there are no hooks, and a cap needs nothing to answer
  have calm : ∀ w ∈ history fuel p o [] descent r, w.Calm p := by
    intro w hw
    cases hcall : w.call with
    | prepare => exact h.calm hw (found w hw) (.inl hcall)
    | step k => exact h.calm hw (found w hw) (.inr ⟨k, hcall⟩)
    | hook phase k d => exact absurd ((found w hw).attached phase k d hcall) List.not_mem_nil
    | judge k =>
      obtain ⟨b, t, hout⟩ := judged hw hcall
      refine ⟨b, t, hout, fun j hj => ?_⟩
      cases hcall.symm.trans hj
  have bounded : o.criterion.bound = K := by
    rw [cap]
    rfl
  have capped : o.criterion.Capped := by
    rw [cap]
    exact fun x hx => ⟨K, by rw [List.mem_singleton.mp hx]⟩
  obtain ⟨t, ht⟩ := solve_of_bound accepted bounded hfuel calm
  obtain ⟨k, -, hiteration, -, hexact⟩ := iterations_of_bound ht bounded
  rw [hexact capped] at hiteration
  exact ⟨t, ht, hiteration⟩

end Progress

/-- The law of contraction. Gradient descent from any array, along the gradient that is made from data
and in steps of one length, keeps to the orbit: in each of its calls the position is the one after as
many iterations as have been done, the solver never fails, and a run with a cap gets that far. On the
orbit every step multiplies the difference to the mean by `1 - s`. -/
theorem contraction_law {M : Manifold ℝ} {F : Cost ε ℝ} {G : Gradient ε ℝ} {choices : Choices ε ℝ}
    {next : Nat} {name : String} {plan : Plan ε ℝ} {length : Datum ℝ} {r : Session ε ℝ} {v : Vec ℝ}
    (made : Manifold.euclidean (.whole n) = .ok M)
    (gradient : Distance.meanSquaredGradientOracle data.points = .ok G)
    (constant : (Stepsize.makeConstant length : Answer ℝ (Stepsize ε ℝ)) = .ok (.constant s))
    (chosen : choices.stepsize = some (.constant s)) (named : name = "exp" ∨ name = "retr")
    (planned : Plan.descent next (some M) (.callable F) (.callable G) (.given (.text name)) choices =
      .ok plan)
    (start : startingPoint r.state.x = .ok v) (holds : Flat.Holds (.array v) x₀) (fuel : Nat) :
    (∀ w ∈ history fuel plan.problem plan.options plan.chain plan.solver r,
      (w.call ≠ .prepare → data.Reached s x₀ w.call.done w.before.state.position) ∧
      (∀ k b t, w.call = .step k → w.outcome = .ok b t →
        0 < k ∧ data.Reached s x₀ k t.state.position) ∧
      (w.call = .prepare ∨ (∃ k, w.call = .step k) → w.Calm plan.problem)) ∧
    (∀ t, plan.run fuel r = .ok () t → ∃ k, t.state.iteration = .whole (Int.ofNat k) ∧
      data.Reached s x₀ k t.state.position) ∧
    (∀ id k checks, r.settings.validate.holds = .ok checks → plan.chain = [] →
      plan.options.criterion = .atom id (.cap k) → k ≤ fuel →
      ∃ t, plan.run fuel r = .ok () t ∧ t.state.iteration = .whole (Int.ofNat k) ∧
        data.Reached s x₀ k t.state.position) ∧
    (∀ k, data.orbit s x₀ k - data.mean = (1 - s) ^ k • (x₀ - data.mean)) ∧
    (s = 1 → ∀ k, 1 ≤ k → data.orbit s x₀ k = data.mean) ∧
    (s = 0 → ∀ k, data.orbit s x₀ k = x₀) := by
  have homing := homing_of_plan made gradient (nonneg_of_constant constant) chosen named planned
  have hsolver := (plan_descent_ok planned).2.1
  have accepted : ∀ t, validate plan.problem r = .ok () t → Flat.Holds t.state.position.x x₀ := by
    intro t ht
    rw [validate_of_point start] at ht
    obtain ⟨-, rfl⟩ := settled_eq_ok_iff.mp ht
    exact holds
  obtain ⟨hcalls, hend⟩ := homing.numbered.history accepted fuel
  unfold Plan.run
  rw [hsolver]
  refine ⟨fun w hw => ?_, hend, fun id k checks checked hchain cap hfuel => ?_, orbit_sub_mean data s x₀,
    ?_, ?_⟩
  · have found := hcalls w hw
    exact ⟨found.before, found.after, homing.calm hw found⟩
  · rw [hchain] at hend ⊢
    obtain ⟨t, ht, hiteration⟩ := solve_of_cap homing start holds checked cap hfuel
    obtain ⟨j, hj, hreached⟩ := hend t ht
    cases hiteration.symm.trans hj
    exact ⟨t, ht, hj, hreached⟩
  · rintro rfl k hk
    exact orbit_one data x₀ hk
  · rintro rfl k
    exact orbit_of_zero data x₀ k

section Corners

noncomputable def cappedPlan (data : Sample n) (s : ℝ) (m : Nat) : Plan Unit ℝ where
  problem := ⟨.euclideanOf (.whole n), fun _ _ => pure 0,
    .gradient fun M y => settled (Distance.meanSquaredGradient data.points M y)⟩
  options := ⟨.descent .standard, .atom 0 (.cap m), .constant s⟩
  chain := []
  solver := descent

noncomputable def startingAt (x₀ : Space n) : Session Unit ℝ :=
  .start () .standard (.start (Flat.point x₀))

theorem contraction_law_corners :
    (Stepsize.makeConstant (.real (1 / 2)) : Answer ℝ (Stepsize Unit ℝ)) =
      .ok (.constant (1 / 2)) ∧
    Plan.descent 1 (some (.euclideanOf (.whole 2))) (.callable fun _ _ => pure 0)
      (.callable fun M y => settled (Distance.meanSquaredGradient corners.points M y)) .standard
      ⟨some (.constant (1 / 2)), some (.atom 0 (.cap 3)), .value .none, .value .none⟩ =
        .ok (corners.cappedPlan (1 / 2) 3) ∧
    ∃ t, (corners.cappedPlan (1 / 2) 3).run 3 (startingAt !₂[8, 4]) = .ok () t ∧
      corners.Reached (1 / 2) !₂[8, 4] 3 t.state.position := by
  have constant : (Stepsize.makeConstant (.real (1 / 2)) : Answer ℝ (Stepsize Unit ℝ)) =
      .ok (.constant (1 / 2)) := by
    have hlt : Scalar.lt (1 / 2 : ℝ) 0 = false := decide_eq_false (by norm_num)
    exact map_eq_ok_iff.mpr ⟨1 / 2, number_real_eq_ok_iff.mpr
      ⟨rfl, rfl, (Bool.not_eq_true' _).mpr hlt⟩, rfl⟩
  have planned : Plan.descent 1 (some (.euclideanOf (.whole 2))) (.callable fun _ _ => pure 0)
      (.callable fun M y => settled (Distance.meanSquaredGradient corners.points M y)) .standard
      ⟨some (.constant (1 / 2)), some (.atom 0 (.cap 3)), .value .none, .value .none⟩ =
        .ok (corners.cappedPlan (1 / 2) 3) := rfl
  obtain ⟨-, -, hcap, -⟩ := contraction_law (r := startingAt !₂[8, 4]) rfl
    corners.gradientOracle_eq constant rfl (.inl rfl) planned rfl (Flat.holds_point !₂[8, 4]) 3
  obtain ⟨t, ht, -, hreached⟩ := hcap 0 3 true rfl rfl rfl (Nat.le_refl 3)
  exact ⟨constant, planned, t, ht, hreached⟩

end Corners
end Geodescent.Sample
