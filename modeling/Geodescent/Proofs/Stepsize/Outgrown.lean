import Mathlib
import Geodescent.Proofs.Parameter.Slot
import Geodescent.Proofs.Run.Abort
import Geodescent.Proofs.Run.Raised
import Geodescent.Proofs.Sweep.Exact
import Geodescent.Manifold.Euclidean

/-! Schedules in runs. As long as the powers of the formula are scalars a schedule answers, and an
answer that cannot be used fails the run with the step and the iteration. A schedule whose powers
outgrow the scalars does not answer at all, and the run fails as too large: `outgrown_law`. -/
namespace Geodescent
variable {ε α : Type} [Scalar α]

namespace Schedule
variable {schedule : Schedule α} {k : Int}

/-- The number of the iteration and both powers of the formula are scalars. -/
structure Fits (s : Schedule α) (k : Int) : Prop where
  counter : Scalar.isFinite (Scalar.ofInt k : α) = true
  growth : Scalar.isFinite (Scalar.pow s.factor (Scalar.ofInt k)) = true
  decay : Scalar.isFinite (Scalar.pow (Scalar.ofInt k) s.exponent) = true

instance (s : Schedule α) (k : Int) : Decidable (s.Fits k) :=
  decidable_of_iff (Scalar.isFinite (Scalar.ofInt k : α) = true ∧
      Scalar.isFinite (Scalar.pow s.factor (Scalar.ofInt k)) = true ∧
      Scalar.isFinite (Scalar.pow (Scalar.ofInt k) s.exponent) = true)
    ⟨fun ⟨hc, hg, hd⟩ => ⟨hc, hg, hd⟩, fun ⟨hc, hg, hd⟩ => ⟨hc, hg, hd⟩⟩

def formula (s : Schedule α) (k : Int) : α :=
  (s.length - Scalar.ofInt k * s.subtrahend) * Scalar.pow s.factor (Scalar.ofInt k) /
    Scalar.pow (Scalar.ofInt k) s.exponent

theorem finite_of_make {length factor subtrahend exponent : Datum α}
    (made : make length factor subtrahend exponent = .ok schedule) :
    Scalar.isFinite schedule.factor = true ∧ Scalar.isFinite schedule.exponent = true := by
  obtain ⟨l, -, h₁⟩ := bind_eq_ok_iff.mp made
  obtain ⟨f, hfactor, h₂⟩ := bind_eq_ok_iff.mp h₁
  obtain ⟨c, -, h₃⟩ := bind_eq_ok_iff.mp h₂
  obtain ⟨x, hexponent, h₄⟩ := bind_eq_ok_iff.mp h₃
  cases h₄
  exact ⟨isFinite_of_number hfactor, isFinite_of_number hexponent⟩

theorem power_of_finite {x y : α} (hx : Scalar.isFinite x = true)
    (hy : Scalar.isFinite y = true) : Number.power x y =
      if Scalar.isFinite (Scalar.pow x y) = true then .ok (Scalar.pow x y) else .error .tooLarge := by
  simp only [Number.power, hx, hy, Bool.true_and]
  cases Scalar.isFinite (Scalar.pow x y) <;> rfl

theorem lengthAt_whole (hfactor : Scalar.isFinite schedule.factor = true)
    (hexponent : Scalar.isFinite schedule.exponent = true) :
    schedule.lengthAt (.whole k) =
      if schedule.Fits k then .ok (schedule.formula k) else .error .tooLarge := by
  by_cases hcounter : Scalar.isFinite (Scalar.ofInt k : α) = true
  · have hlength : schedule.lengthAt (.whole k) =
        Number.power schedule.factor (Scalar.ofInt k) >>= fun growth =>
          Number.power (Scalar.ofInt k) schedule.exponent >>= fun decay =>
            .ok ((schedule.length - Scalar.ofInt k * schedule.subtrahend) * growth / decay) := by
      rw [lengthAt, lengthWith, Number.toReal, ofInt?_eq_some_iff.mpr ⟨hcounter, rfl⟩]
      rfl
    rw [hlength, power_of_finite hfactor hcounter, power_of_finite hcounter hexponent]
    by_cases hgrowth : Scalar.isFinite (Scalar.pow schedule.factor (Scalar.ofInt k)) = true
    · by_cases hdecay : Scalar.isFinite (Scalar.pow (Scalar.ofInt k) schedule.exponent) = true
      · rw [if_pos hgrowth, if_pos hdecay, if_pos ⟨hcounter, hgrowth, hdecay⟩]
        rfl
      · rw [if_pos hgrowth, if_neg hdecay, if_neg fun h : schedule.Fits k => hdecay h.decay]
        rfl
    · rw [if_neg hgrowth, if_neg fun h : schedule.Fits k => hgrowth h.growth]
      rfl
  · have hbeyond : (Scalar.ofInt? k : Option α) = none := if_neg hcounter
    rw [lengthAt, lengthWith, Number.toReal, hbeyond,
      if_neg fun h : schedule.Fits k => hcounter h.counter]
    rfl

theorem value_whole (hfactor : Scalar.isFinite schedule.factor = true)
    (hexponent : Scalar.isFinite schedule.exponent = true) (hk : 1 ≤ k) :
    schedule.value (.whole k) =
      if schedule.Fits k then .ok (.real (schedule.formula k)) else .error .tooLarge := by
  have hfirst : (Number.whole k : Number α).lt (.whole 1) = false := by
    simp only [Number.lt, decide_eq_false_iff_not]
    omega
  have hvalue : schedule.value (.whole k) =
      if (Number.whole k : Number α).lt (.whole 1) = true then
        (schedule.lengthAt (.whole 1)).map .real
      else (schedule.lengthAt (.whole k)).map .real := rfl
  rw [hvalue, hfirst, if_neg Bool.false_ne_true, lengthAt_whole hfactor hexponent]
  split <;> rfl

/-- The faults of a schedule in iteration `k`. -/
inductive Fails (s : Schedule α) (k : Int) (allowZero : Bool) : Fault α → Prop
  | unusable (fits : s.Fits k) (bad : Stepsize.usable (s.formula k) allowZero = false) :
      Fails s k allowZero (.unusableStep (s.formula k) k)
  | outgrown (outgrown : ¬ s.Fits k) : Fails s k allowZero (.refused .tooLarge)

end Schedule

namespace Solver
variable {p : Problem ε α} {o : Options ε α} {chain : List (Decorator ε α)} {solver : Solver ε α}
  {schedule : Schedule α} {allowZero : Bool}

/-- The solvers of the library, each with whether it takes a step of length zero. -/
inductive Library : Solver ε α → Bool → Prop
  | descent : Library descent true
  | sweep : Library sweep false

theorem ruleRaises_iff {settings : Settings α} {k : Int} {s : Stepping ε α} {e : Fault α}
    (hrule : o.stepsize = .decreasing schedule)
    (hfactor : Scalar.isFinite schedule.factor = true)
    (hexponent : Scalar.isFinite schedule.exponent = true) (hk : 1 ≤ k) :
    RuleRaises p o settings k allowZero s e ↔ schedule.Fails k allowZero e := by
  have hnext : o.stepsize.next settings p s.position (.whole k) =
      settled (refusing (schedule.value (.whole k))) := by
    rw [hrule]
    rfl
  rw [Schedule.value_whole hfactor hexponent hk] at hnext
  by_cases hfits : schedule.Fits k
  · rw [if_pos hfits] at hnext
    have hreal : (Datum.real (schedule.formula k)).toReal = .ok (schedule.formula k) := rfl
    constructor
    · intro h
      cases h with
      | rule fails =>
        rw [hnext] at fails
        cases fails
      | check answers fails =>
        rw [hnext] at answers
        cases answers
        cases husable : Stepsize.usable (schedule.formula k) allowZero with
        | true =>
          rw [Stepsize.check_eq_ok_iff.mpr ⟨hreal, husable⟩] at fails
          cases fails
        | false =>
          rw [Stepsize.check_of_unusable hreal husable] at fails
          cases fails
          exact .unusable hfits husable
    · intro h
      cases h with
      | unusable _ bad =>
        exact .check (by rw [hnext]; rfl) (Stepsize.check_of_unusable hreal bad)
      | outgrown outgrown => exact absurd hfits outgrown
  · rw [if_neg hfits] at hnext
    constructor
    · intro h
      cases h with
      | rule fails =>
        rw [hnext] at fails
        cases fails
        exact .outgrown hfits
      | check answers fails =>
        rw [hnext] at answers
        cases answers
    · intro h
      cases h with
      | unusable fits _ => exact absurd fits hfits
      | outgrown _ => exact .rule (by rw [hnext]; rfl)

theorem solve_of_ruleRaises {fuel k : Nat} {s : Session ε α} {v : Visit ε α} {e : Fault α}
    (library : Library solver allowZero) (hv : v ∈ history fuel p o chain solver s)
    (hk : v.call = .step k)
    (h : RuleRaises p o v.before.settings k allowZero ((Session.stepping ε α).get v.before) e) :
    ∃ t, solve fuel p o chain solver s = .error e t := by
  have hraises : ∃ t, (Call.step k).perform p o solver v.before = .error e t := by
    rw [perform_error_iff]
    cases library with
    | descent => exact descent_step_error_iff.mpr (.length h)
    | sweep => exact sweep_step_error_iff.mpr (.length h)
  obtain ⟨t, ht⟩ := hraises
  have houtcome := outcome_of_mem_history hv
  rw [hk, ht] at houtcome
  exact ⟨t, (solve_of_failed_step hv hk houtcome).1⟩

/-- The law of schedules in runs. In every iteration an accepted schedule answers what the formula
says, unless a power in it or the number of the iteration is beyond all scalars. In the runs of the
library's solvers an answer that is not finite, negative, or zero where that is forbidden ends the
run as an unusable step, with that step and the iteration; a schedule that does not answer ends it
as too large; and the schedule fails in no other way. -/
theorem outgrown_law {length factor subtrahend exponent : Datum α}
    (made : Schedule.make length factor subtrahend exponent = .ok schedule)
    (hrule : o.stepsize = .decreasing schedule) (library : Library solver allowZero) (fuel : Nat)
    (s : Session ε α) :
    (∀ k : Int, 1 ≤ k → schedule.value (.whole k) =
      if schedule.Fits k then .ok (.real (schedule.formula k)) else .error .tooLarge) ∧
    ∀ v ∈ history fuel p o chain solver s, ∀ k, v.call = .step k → ∀ e,
      (RuleRaises p o v.before.settings k allowZero ((Session.stepping ε α).get v.before) e ↔
        schedule.Fails k allowZero e) ∧
      (schedule.Fails k allowZero e → ∃ t, solve fuel p o chain solver s = .error e t) := by
  obtain ⟨hfactor, hexponent⟩ := Schedule.finite_of_make made
  refine ⟨fun k hk => Schedule.value_whole hfactor hexponent hk, fun v hv k hk e => ?_⟩
  have hpos : 0 < k := step_pos hv hk
  have hraises : RuleRaises p o v.before.settings k allowZero
      ((Session.stepping ε α).get v.before) e ↔ schedule.Fails k allowZero e :=
    ruleRaises_iff hrule hfactor hexponent (by omega)
  exact ⟨hraises, fun hfails => solve_of_ruleRaises library hv hk (hraises.mpr hfails)⟩

def brink (α : Type) [Scalar α] : Problem Unit α :=
  ⟨Manifold.euclideanOf (.whole 1), fun _ _ => pure 0, .gradient fun _ x => settled (.ok x)⟩

def ledge (α : Type) [Scalar α] : Session Unit α :=
  .start () .standard (.start (.array ⟨[1], .whole [2]⟩))

def following (schedule : Schedule α) : Options Unit α :=
  ⟨.descent .standard, .atom 0 (.cap 3), .decreasing schedule⟩

def receding (α : Type) [Scalar α] : Schedule α :=
  ⟨Scalar.ofInt 1, Scalar.ofInt 1, Scalar.ofInt 2, Scalar.ofInt 0⟩

theorem formula_receding (k : Int) : (receding ℝ).formula k = 1 - k * 2 := by
  simp [Schedule.formula, receding, Scalar.ofInt, Scalar.pow]

theorem unusable_neg_one : Stepsize.usable (-1 : ℝ) true = false := by
  have hlt : Scalar.lt (-1 : ℝ) 0 = true := decide_eq_true (by norm_num)
  rw [Stepsize.usable, hlt]
  simp

/-- Far out the schedule is too large for doubles; in exact arithmetic it answers everywhere, and its
first step cannot be used. -/
theorem outgrown_law_receding :
    (receding Float).value (.whole (10 ^ 400)) = .error .tooLarge ∧
    (receding ℝ).value (.whole 3) = .ok (.real (-5)) ∧
    ∃ t, solve 3 (brink ℝ) (following (receding ℝ)) [] descent (ledge ℝ) =
      .error (.unusableStep (-1) 1) t := by
  have double : Schedule.make (.whole 1) (.whole 1) (.whole 2) (.whole 0) =
      .ok (receding Float) := rfl
  have ideal : Schedule.make (.whole 1) (.whole 1) (.whole 2) (.whole 0) =
      .ok (receding ℝ) := rfl
  constructor
  · have beyond : Scalar.isFinite (Scalar.ofInt (10 ^ 400) : Float) = false := by decide +kernel
    obtain ⟨hvalue, -⟩ := @outgrown_law Unit Float _ (brink Float) (following (receding Float)) []
      _ _ _ _ _ _ _ double rfl .descent 3 (ledge Float)
    rw [hvalue _ (Int.pow_pos (by decide))]
    refine if_neg fun fits => ?_
    rw [fits.counter] at beyond
    cases beyond
  have fits (k : Int) : (receding ℝ).Fits k := ⟨rfl, rfl, rfl⟩
  obtain ⟨hvalue, hruns⟩ := @outgrown_law Unit ℝ _ (brink ℝ) (following (receding ℝ)) []
    _ _ _ _ _ _ _ ideal rfl .descent 3 (ledge ℝ)
  constructor
  · have hformula : (receding ℝ).formula 3 = -5 := by
      rw [formula_receding]
      norm_num
    rw [hvalue 3 (by decide), if_pos (fits 3), hformula]
  · have hformula : (receding ℝ).formula (1 : Nat) = -1 := by
      rw [formula_receding]
      norm_num
    have hfails : (receding ℝ).Fails (1 : Nat) true (.unusableStep (-1) 1) := by
      have hunusable := unusable_neg_one
      rw [← hformula] at hunusable ⊢
      exact .unusable (fits 1) hunusable
    exact (hruns _ (first_step_mem rfl rfl) 1 rfl _).2 hfails

/-- An accepted schedule of constant length, far out. -/
theorem not_answered_when_far : ∃ schedule : Schedule Float,
    Schedule.make (.real 1) (.real 1) (.real 0) (.real 0) = .ok schedule ∧
      schedule.value (.whole (10 ^ 400)) = .error .tooLarge := by
  have made : Schedule.make (.real 1) (.real 1) (.real 0) (.real 0) =
      .ok (⟨1, 1, 0, 0⟩ : Schedule Float) := rfl
  obtain ⟨hfactor, hexponent⟩ := Schedule.finite_of_make made
  have beyond : Scalar.isFinite (Scalar.ofInt (10 ^ 400) : Float) = false := by decide +kernel
  refine ⟨⟨1, 1, 0, 0⟩, made, ?_⟩
  rw [Schedule.value_whole hfactor hexponent (Int.pow_pos (by decide))]
  refine if_neg fun fits => ?_
  rw [fits.counter] at beyond
  cases beyond

end Solver
end Geodescent
