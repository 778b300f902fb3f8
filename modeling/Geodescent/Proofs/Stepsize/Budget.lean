import Geodescent.Proofs.Parameter.Slot
import Geodescent.Proofs.Settings
import Geodescent.Proofs.Stepsize.Trials

/-! Budgets of a rule and budgets in the settings. A whole number that is not negative does the same in
both places. A rule refuses every other value as its own; in the settings it is kept, and the search
takes it as it is: `budget_law`. -/
namespace Geodescent.Armijo
variable {ε α : Type} [Scalar α] {r : Armijo ε α} {p : Problem ε α} {settings other : Settings α}
  {s : Position α} {k v : Datum α} {x g : Point α} {start slope : α}

def withBudget (r : Armijo ε α) (v : Datum α) : Armijo ε α := { r with budget := v }

section Own
variable {initial contraction decrease : Datum α} {choice : RetractionChoice ε α}

theorem make_withBudget (made : make initial choice contraction decrease .none = .ok r)
    (v : Datum α) :
    make initial choice contraction decrease v = (Parameter.budget v).map r.withBudget := by
  obtain ⟨i, hinitial, h₁⟩ := bind_eq_ok_iff.mp made
  obtain ⟨move, hmove, h₂⟩ := bind_eq_ok_iff.mp h₁
  obtain ⟨c, hcontraction, h₃⟩ := bind_eq_ok_iff.mp h₂
  obtain ⟨d, hdecrease, h₄⟩ := bind_eq_ok_iff.mp h₃
  cases h₄
  unfold make
  rw [hinitial, hmove, hcontraction, hdecrease]
  rcases Parameter.budget v with e | b
  · rfl
  · rfl

theorem budget_unset (made : make initial choice contraction decrease .none = .ok r) :
    r.budget = .none := by
  obtain ⟨i, -, h₁⟩ := bind_eq_ok_iff.mp made
  obtain ⟨move, -, h₂⟩ := bind_eq_ok_iff.mp h₁
  obtain ⟨c, -, h₃⟩ := bind_eq_ok_iff.mp h₂
  obtain ⟨d, -, h₄⟩ := bind_eq_ok_iff.mp h₃
  cases h₄
  rfl

omit [Scalar α] in
theorem budget_refused (given : v ≠ .none) (unfit : ∀ n : Nat, v ≠ .whole n) :
    Parameter.budget v = .error (.misuse (.badBudget v)) := by
  cases v with
  | none => exact absurd rfl given
  | whole m =>
    have hneg : ¬ 0 ≤ m := fun hm => unfit m.toNat (by rw [Int.toNat_of_nonneg hm])
    rw [Parameter.budget, if_neg hneg]
  | truth | real | text | list | token | array | stream | table | thing => rfl

end Own

section Same

theorem narrated_search_withBudget (budget : Datum α) (left contractions : Nat) (step : α) :
    Narrated.search (r.withBudget v) p x g start slope k budget left contractions step =
      Narrated.search r p x g start slope k budget left contractions step := by
  induction left generalizing contractions step with
  | zero => rfl
  | succ left ih =>
    unfold Narrated.search
    simp only [ih]
    rfl

theorem narrated_next_withBudget
    (h : (r.withBudget v).budgetOf other = r.budgetOf settings) :
    Narrated.next (r.withBudget v) p other s k = Narrated.next r p settings s k := by
  unfold Narrated.next Narrated.choose
  simp only [h, narrated_search_withBudget]
  rfl

theorem next_withBudget (h : (r.withBudget v).budgetOf other = r.budgetOf settings) :
    (r.withBudget v).next other p s k = r.next settings p s k := by
  rw [← outcome_next, ← outcome_next, narrated_next_withBudget h]

end Same

/-- How many contractions a value allows where it stands for a budget. Truth values count as zero and
one, and an array without axes counts as its entry, which wraps around at the end of its range. -/
inductive Counts : Datum α → Nat → Prop
  | whole (b : Nat) : Counts (.whole b) b
  | truth (b : Bool) : Counts (.truth b) b.toNat
  | wholeEntry {n : Int} {b : Nat} (next : wrapEntry (n + 1) = b + 1) :
      Counts (.array ⟨[], .whole [n]⟩) b
  | truthEntry (b : Bool) : Counts (.array ⟨[], .truth [b]⟩) b.toNat

/-- The budgets that are used up before the first trial. -/
inductive Spent : Datum α → Prop
  | whole {n : Int} (negative : n < 0) : Spent (.whole n)
  | entry {n : Int} (next : wrapEntry (n + 1) ≤ 0) : Spent (.array ⟨[], .whole [n]⟩)

omit [Scalar α] in
theorem Counts.trials {b : Nat} (h : Counts v b) : trials v = .ok (b + 1) := by
  cases h with
  | whole =>
    rw [Armijo.trials]
    congr 1
  | truth b | truthEntry b => cases b <;> rfl
  | wholeEntry next =>
    rw [Armijo.trials, next]
    congr 1

omit [Scalar α] in
theorem Spent.trials (h : Spent v) : trials v = .ok 0 := by
  cases h with
  | whole negative => rw [Armijo.trials, Int.toNat_of_nonpos (by omega)]
  | entry next => rw [Armijo.trials, Int.toNat_of_nonpos next]

omit [Scalar α] in
theorem trials_cases (v : Datum α) : (∃ b, Counts v b) ∨ Spent v ∨
    ((∀ b, ¬ Counts v b) ∧ ¬ Spent v ∧ trials v = .error (.refused .wrongType)) := by
  cases v with
  | whole m =>
    rcases Int.lt_or_le m 0 with hneg | hnonneg
    · exact .inr (.inl (.whole hneg))
    · obtain ⟨b, rfl⟩ := Int.eq_ofNat_of_zero_le hnonneg
      exact .inl ⟨b, .whole b⟩
  | truth b => exact .inl ⟨b.toNat, .truth b⟩
  | array a =>
    rcases a with ⟨_ | ⟨n, shape⟩, xs | ns | bs⟩
    · exact .inr (.inr ⟨nofun, nofun, rfl⟩)
    · match ns with
      | [n] =>
        rcases Int.lt_or_le 0 (wrapEntry (n + 1)) with hpos | hnonpos
        · refine .inl ⟨(wrapEntry (n + 1) - 1).toNat, .wholeEntry ?_⟩
          omega
        · exact .inr (.inl (.entry hnonpos))
      | [] | _ :: _ :: _ => exact .inr (.inr ⟨nofun, nofun, rfl⟩)
    · match bs with
      | [b] => exact .inl ⟨b.toNat, .truthEntry b⟩
      | [] | _ :: _ :: _ => exact .inr (.inr ⟨nofun, nofun, rfl⟩)
    -- an array with axes is no number, whatever it holds
    all_goals exact .inr (.inr ⟨nofun, nofun, rfl⟩)
  | none | real | text | list | token | stream | table | thing =>
    exact .inr (.inr ⟨nofun, nofun, rfl⟩)

/-- The initial step is tried before any other one, whatever becomes of that. -/
def Begins (r : Armijo ε α) (p : Problem ε α) (x g : Point α) (w : Workshop ε)
    (es : List (Evaluation ε α)) (res : EStateM.Result (Fault α) (Workshop ε) α) : Prop :=
  (∃ a value env, Tried r p x g r.initial w.env a value env ∧ es.head? = some a) ∨
    ∃ e env, r.trial p x g r.initial w.env = .error e env ∧ res = .error e ⟨env, w.journal⟩

theorem search_begins (budget : Datum α) (left : Nat) (w : Workshop ε) :
    Begins r p x g w
      (Narrated.search r p x g start slope k budget (left + 1) 0 (r.stepAt 0) w).1
      (Narrated.search r p x g start slope k budget (left + 1) 0 (r.stepAt 0) w).2 := by
  rw [Narrated.search]
  rcases trial_cases (r.stepAt 0) w with ⟨a, value, env, tried, hasked⟩ | ⟨es, e, env, hfails, hasked⟩
  · rw [Scribe.bind_of_ok hasked]
    exact .inl ⟨a, value, env, tried, rfl⟩
  · rw [Scribe.bind_of_error hasked]
    exact .inr ⟨e, env, hfails, rfl⟩

/-- What becomes of the trials of a rule without a budget of its own when a value stands in the
settings for it. -/
inductive Capped (r : Armijo ε α) (p : Problem ε α) (x g : Point α) (start slope : α)
    (k : Datum α) (w : Workshop ε) :
    Datum α → List (Evaluation ε α) → EStateM.Result (Fault α) (Workshop ε) α → Prop
  | counted {v : Datum α} {b : Nat} {es : List (Evaluation ε α)}
      {res : EStateM.Result (Fault α) (Workshop ε) α} (counts : Counts v b)
      (ends : Ends r p x g start slope k v 0 b w es res) (begins : Begins r p x g w es res) :
      Capped r p x g start slope k w v es res
  | spent {v : Datum α} (spent : Spent v) :
      Capped r p x g start slope k w v [] (.error (.exhausted r.initial k x v) w)
  | uncounted {v : Datum α} (uncounted : ∀ b, ¬ Counts v b) (unspent : ¬ Spent v) :
      Capped r p x g start slope k w v [] (.error (.refused .wrongType) w)

theorem choose_capped (hbudget : r.budgetOf settings = v) (hslope : Scalar.eq slope 0 = false)
    (w : Workshop ε) :
    Capped r p x g start slope k w v (Narrated.choose r p settings x k g start slope w).1
      (Narrated.choose r p settings x k g start slope w).2 := by
  subst hbudget
  rcases trials_cases (r.budgetOf settings) with ⟨b, counts⟩ | spent | ⟨uncounted, unspent, htrials⟩
  · refine .counted counts (choose_ends counts.trials hslope w) ?_
    rw [choose_of_trials counts.trials hslope]
    exact search_begins (r.budgetOf settings) b w
  · rw [choose_of_trials spent.trials hslope]
    exact .spent spent
  · rw [Narrated.choose, if_neg (Bool.eq_false_iff.mp hslope), htrials]
    exact .uncounted uncounted unspent

/-- The law of budgets. A whole number that is not negative may stand in either place: the search is
the same, with the same trials, and no other value is accepted as a rule's own budget. As a setting
every value is accepted. Of those that a rule refuses, truth values and the entries of arrays without
axes count, a negative number ends the search before the first trial, and the others cannot be used
at all. -/
theorem budget_law {initial contraction decrease : Datum α} {choice : RetractionChoice ε α}
    {changes : List (String × Datum α)} {entry : JournalEntry}
    (made : make initial choice contraction decrease .none = .ok r)
    (configured : other.configure changes = .ok (settings, entry))
    (given : Settings.lastGiven? changes "armijo_max_backtracks" = some v) :
    (∀ n : Nat, v = .whole n →
      make initial choice contraction decrease v = .ok (r.withBudget v) ∧
      ∀ (others : Settings α) (p : Problem ε α) s k,
        Narrated.next (r.withBudget v) p others s k = Narrated.next r p settings s k ∧
        (r.withBudget v).next others p s k = r.next settings p s k) ∧
    (v ≠ .none → (∀ n : Nat, v ≠ .whole n) →
      make initial choice contraction decrease v = .error (.misuse (.badBudget v))) ∧
    (∀ d, ∃ settings entry,
      other.configure [("armijo_max_backtracks", d)] = .ok (settings, entry)) ∧
    ∀ (p : Problem ε α) s k,
      (Narrated.next r p settings s k).outcome = r.next settings p s k ∧
      ∀ (w : Workshop ε) g start slope first env, Surveyed p s g start slope w.env first env →
        (Scalar.eq slope 0 = true →
          Narrated.next r p settings s k w = ([first], .ok r.initial ⟨env, w.journal⟩)) ∧
        (Scalar.eq slope 0 = false → ∃ es res,
          Narrated.next r p settings s k w = (first :: es, res) ∧
          Capped r p s.x g start slope k ⟨env, w.journal⟩ v es res) := by
  have hname : "armijo_max_backtracks" ∈ settingNames := by decide
  have hsetting : settings.budget = v := by
    have hget : settings.get? "armijo_max_backtracks" = _ :=
      Settings.get?_of_configure configured hname
    rw [given] at hget
    exact Option.some.inj hget
  have hbudget : r.budgetOf settings = v := by
    rw [budgetOf, budget_unset made, hsetting]
  have hmake := make_withBudget made v
  refine ⟨?_, fun hgiven unfit => ?_, fun d => ?_, fun p s k => ⟨outcome_next, ?_⟩⟩
  · rintro n rfl
    have hown (others : Settings α) :
        (r.withBudget (.whole n)).budgetOf others = r.budgetOf settings := hbudget.symm
    refine ⟨?_, fun others p s k => ⟨narrated_next_withBudget (hown others),
      next_withBudget (hown others)⟩⟩
    rw [hmake, Slot.budget_eq_ok_iff.mpr ⟨rfl, .inr ⟨n, rfl⟩⟩]
    rfl
  · rw [hmake, budget_refused hgiven unfit]
    rfl
  · obtain ⟨entry, configured⟩ := Settings.configure_single (s := other) hname d
    exact ⟨_, entry, configured⟩
  · intro w g start slope first env surveyed
    have hnext : Narrated.next r p settings s k w = _ := next_of_surveyed surveyed
    refine ⟨fun hzero => ?_, fun hslope => ⟨_, _, hnext, choose_capped hbudget hslope _⟩⟩
    rw [hnext, Narrated.choose, if_pos hzero]
    rfl

section Halving
open Solver

theorem make_halving :
    make (.real 1) .standard (.real 0.5) (.real 0.5) .none = .ok halving := rfl

theorem surveyed_hillside : ∃ g start slope first env,
    Surveyed valley hillside.state.position g start slope () first env ∧
      Scalar.eq slope 0 = false := by
  obtain ⟨step, w, hnext, hstep⟩ : ∃ step w, halving.next .standard valley
      hillside.state.position (.whole 1) ⟨(), .empty⟩ = .ok step w ∧ step ≠ halving.initial := by
    decide +kernel
  have hrun : (Narrated.next halving valley .standard hillside.state.position (.whole 1)
      ⟨(), .empty⟩).2 = .ok step w := by
    rw [← hnext, ← outcome_next]
    rfl
  rcases @next_surveyed Unit Float _ halving valley .standard hillside.state.position (.whole 1) 0
    ⟨(), .empty⟩ with ⟨e, w', herror, -⟩ | ⟨g, start, slope, first, env, surveyed, hchoose⟩
  · cases hrun.symm.trans herror
  · refine ⟨g, start, slope, first, env, surveyed, Bool.eq_false_iff.mpr fun hzero => hstep ?_⟩
    rw [hchoose, Narrated.choose, if_pos hzero] at hrun
    cases hrun
    rfl

theorem budget_law_halving : ∃ settings entry,
    Settings.standard.configure [("armijo_max_backtracks", .whole 3)] = .ok (settings, entry) ∧
    (halving.withBudget (.whole 3)).next .standard valley hillside.state.position (.whole 1)
        ⟨(), .empty⟩ =
      halving.next settings valley hillside.state.position (.whole 1) ⟨(), .empty⟩ ∧
    ∃ g start slope env es res, Capped halving valley hillside.state.x g start slope (.whole 1)
        ⟨env, .empty⟩ (.whole 3) es res ∧
      (Narrated.next halving valley settings hillside.state.position (.whole 1)
        ⟨(), .empty⟩).2 = res := by
  obtain ⟨entry, configured⟩ := Settings.configure_single (s := (.standard : Settings Float))
    (by decide : "armijo_max_backtracks" ∈ settingNames) (.whole 3)
  obtain ⟨hsame, -, -, hsearches⟩ := budget_law make_halving configured rfl
  obtain ⟨g, start, slope, first, env, surveyed, hslope⟩ := surveyed_hillside
  obtain ⟨es, res, hnext, capped⟩ :=
    ((hsearches valley hillside.state.position (.whole 1)).2 ⟨(), .empty⟩ g start slope first env
      surveyed).2 hslope
  refine ⟨_, entry, configured, ?_, g, start, slope, env, es, res, capped, ?_⟩
  · exact congrFun ((hsame 3 rfl).2 .standard valley hillside.state.position (.whole 1)).2 _
  · rw [hnext]

/-- The number that is no budget of a rule ends the search of the hillside before the first trial. -/
theorem not_refused_when_negative :
    (make (.real 1) .standard (.real 0.5) (.real 0.5) (.whole (-1)) :
      Answer Float (Armijo Unit Float)) = .error (.misuse (.badBudget (.whole (-1)))) ∧
    ∃ settings entry, Settings.standard.configure [("armijo_max_backtracks", .whole (-1))] =
        .ok (settings, entry) ∧
      ∃ first w, Narrated.next halving valley settings hillside.state.position (.whole 1)
        ⟨(), .empty⟩ =
          ([first], .error (.exhausted 1 (.whole 1) hillside.state.x (.whole (-1))) w) := by
  obtain ⟨entry, configured⟩ := Settings.configure_single (s := (.standard : Settings Float))
    (by decide : "armijo_max_backtracks" ∈ settingNames) (.whole (-1))
  refine ⟨rfl, _, entry, configured, ?_⟩
  obtain ⟨g, start, slope, first, env, surveyed, hslope⟩ := surveyed_hillside
  have htrials : trials (halving.budgetOf
      (Settings.standard.put "armijo_max_backtracks" (.whole (-1)))) = .ok 0 := rfl
  refine ⟨first, ⟨env, .empty⟩, ?_⟩
  rw [next_of_surveyed surveyed, choose_of_trials htrials hslope]
  rfl

end Halving
end Geodescent.Armijo
