import Geodescent.Proofs.Descent.Realised

/-! The trials of a line search. `Narrated.next` is the search with a list of the costs that it asks
for, `outcome_next` says that it is the search. The first trial step whose cost is low enough is the
answer, and without one the search ends with the last trial step of its budget: `search_law`. -/
namespace Geodescent.Armijo
variable {ε α : Type} [Scalar α]

/-- An evaluation of the cost, with the surroundings it was made in and what became of it. -/
structure Evaluation (ε α : Type) where
  point : Point α
  before : ε
  outcome : EStateM.Result (Fault α) ε α

namespace Narrated
variable (r : Armijo ε α) (p : Problem ε α)

def cost (y : Point α) : Scribe (Evaluation ε α) (Fault α) ε α :=
  Scribe.entering (fun env r => ⟨y, env, r⟩) (p.costAt y)

def trial (x g : Point α) (step : α) : Scribe (Evaluation ε α) (Fault α) ε α := do
  let v ← Scribe.tacit (settled (refusing ((Datum.real (-step)).mul g)))
  let y ← Scribe.tacit (r.move p.manifold x v)
  cost p y

def search (x g : Point α) (start slope : α) (iteration budget : Datum α) :
    Nat → Nat → α → Scribe (Evaluation ε α) (Fault α) (Workshop ε) α
  | 0, _, step => Scribe.tacit (throw (.exhausted step iteration x budget))
  | left + 1, contractions, step => do
    let value ← Scribe.within (Workshop.surroundings ε) (trial r p x g step)
    if r.accepts start slope step value then
      Scribe.tacit (journalise (acceptance step contractions iteration))
      pure step
    else
      search x g start slope iteration budget left (contractions + 1)
        (if left = 0 then step else step * r.contraction)

def choose (settings : Settings α) (x : Point α) (iteration : Datum α) (g : Point α)
    (start slope : α) : Scribe (Evaluation ε α) (Fault α) (Workshop ε) α :=
  if Scalar.eq slope 0 then pure r.initial
  else do
    let count ← Scribe.tacit (settled (trials (r.budgetOf settings)))
    search r p x g start slope iteration (r.budgetOf settings) count 0 r.initial

def next (settings : Settings α) (s : Position α) (iteration : Datum α) :
    Scribe (Evaluation ε α) (Fault α) (Workshop ε) α := do
  let g ← Scribe.tacit (asking (gradientOf p s))
  let start ← Scribe.within (Workshop.surroundings ε) (cost p s.x)
  let product ← Scribe.tacit (settled (p.manifold.inner s.x g g))
  let slope ← Scribe.tacit (settled (refusing product.toReal))
  choose r p settings s.x iteration g start slope

end Narrated

/-- The trial steps, each of them the one before contracted once more. -/
def stepAt (r : Armijo ε α) : Nat → α
  | 0 => r.initial
  | j + 1 => r.stepAt j * r.contraction

variable {r : Armijo ε α} {p : Problem ε α} {settings : Settings α} {s : Position α}
  {k budget : Datum α} {x g : Point α} {start slope step value : α}

theorem outcome_trial : (Narrated.trial r p x g step).outcome = r.trial p x g step := by
  simp only [Narrated.trial, Narrated.cost, trial, Scribe.outcome_bind, Scribe.outcome_tacit,
    Scribe.outcome_entering]

theorem outcome_search (left contractions : Nat) (step : α) :
    (Narrated.search r p x g start slope k budget left contractions step).outcome =
      r.search p x g start slope k budget left contractions step := by
  induction left generalizing contractions step with
  | zero => rfl
  | succ left ih =>
    unfold Narrated.search search
    rw [Scribe.outcome_bind, Scribe.outcome_within, outcome_trial]
    congr 1
    funext value
    split
    · simp only [Scribe.outcome_bind, Scribe.outcome_tacit, Scribe.outcome_pure]
    · exact ih _ _

/-- The search with its evaluations listed is the search. -/
theorem outcome_next : (Narrated.next r p settings s k).outcome = r.next settings p s k := by
  simp only [Narrated.next, Narrated.cost, Narrated.choose, next, Scribe.outcome_bind,
    Scribe.outcome_tacit, Scribe.outcome_within, Scribe.outcome_entering]
  congr 1
  funext g
  congr 1
  funext start
  congr 1
  funext product
  congr 1
  funext slope
  split
  · rfl
  · simp only [Scribe.outcome_bind, Scribe.outcome_tacit, outcome_search]

/-- The measurements that come first: the gradient, the cost at the point and the squared length of
the gradient there. -/
structure Surveyed (p : Problem ε α) (s : Position α) (g : Point α) (start slope : α) (env : ε)
    (first : Evaluation ε α) (env' : ε) : Prop where
  gradient : gradientOf p s env = .ok g first.before
  point : first.point = s.x
  cost : p.costAt s.x first.before = first.outcome
  value : first.outcome = .ok start env'
  inner : ∃ product, p.manifold.inner s.x g g = .ok product ∧ product.toReal = .ok slope

/-- A trial step: it leads to the point of the evaluation, where the cost is `value`. -/
structure Tried (r : Armijo ε α) (p : Problem ε α) (x g : Point α) (step : α) (env : ε)
    (a : Evaluation ε α) (value : α) (env' : ε) : Prop where
  leads : ∃ v, (Datum.real (-step)).mul g = .ok v ∧ r.move p.manifold x v env = .ok a.point a.before
  cost : p.costAt a.point a.before = a.outcome
  value : a.outcome = .ok value env'

/-- The trial steps from the `j`-th on and before the `n`-th are tried one after the other, and at
each of them the cost is too high. -/
inductive Rejects (r : Armijo ε α) (p : Problem ε α) (x g : Point α) (start slope : α) :
    Nat → Nat → ε → List (Evaluation ε α) → ε → Prop
  | nil {j : Nat} {env : ε} : Rejects r p x g start slope j j env [] env
  | cons {j n : Nat} {env env₁ env' : ε} {a : Evaluation ε α} {value : α}
      {es : List (Evaluation ε α)} (tried : Tried r p x g (r.stepAt j) env a value env₁)
      (rejected : r.accepts start slope (r.stepAt j) value = false)
      (rest : Rejects r p x g start slope (j + 1) n env₁ es env') :
      Rejects r p x g start slope j n env (a :: es) env'

theorem Rejects.length {j n : Nat} {env env' : ε} {es : List (Evaluation ε α)}
    (h : Rejects r p x g start slope j n env es env') : j + es.length = n := by
  induction h with
  | nil => rfl
  | cons _ _ _ ih =>
    rw [List.length_cons]
    omega

/-- How the trials from the `j`-th on end when the `b`-th is the last one: with the first step that
is accepted, without any, or with a trial that fails. -/
inductive Ends (r : Armijo ε α) (p : Problem ε α) (x g : Point α) (start slope : α)
    (k budget : Datum α) (j b : Nat) (w : Workshop ε) :
    List (Evaluation ε α) → EStateM.Result (Fault α) (Workshop ε) α → Prop
  | accepted {n : Nat} {env env' : ε} {es : List (Evaluation ε α)} {last : Evaluation ε α}
      {value : α} (bound : n ≤ b) (rejects : Rejects r p x g start slope j n w.env es env)
      (tried : Tried r p x g (r.stepAt n) env last value env')
      (accepts : r.accepts start slope (r.stepAt n) value = true) :
      Ends r p x g start slope k budget j b w (es ++ [last])
        (.ok (r.stepAt n) ⟨env', w.journal.push (acceptance (r.stepAt n) n k)⟩)
  | exhausted {env : ε} {es : List (Evaluation ε α)}
      (rejects : Rejects r p x g start slope j (b + 1) w.env es env) :
      Ends r p x g start slope k budget j b w es
        (.error (.exhausted (r.stepAt b) k x budget) ⟨env, w.journal⟩)
  | failed {n : Nat} {env env' : ε} {es es' : List (Evaluation ε α)} {e : Fault α}
      (bound : n ≤ b) (rejects : Rejects r p x g start slope j n w.env es env)
      (fails : r.trial p x g (r.stepAt n) env = .error e env') :
      Ends r p x g start slope k budget j b w es' (.error e ⟨env', w.journal⟩)

section Search
variable {env env' : ε} {es : List (Evaluation ε α)}

theorem tried_of_trial (h : Narrated.trial r p x g step env = (es, .ok value env')) :
    ∃ a, Tried r p x g step env a value env' ∧ es = [a] := by
  unfold Narrated.trial at h
  obtain ⟨v, _, hsettled, h₁⟩ := Scribe.tacit_bind_eq_ok_iff.mp h
  obtain ⟨hmul, rfl⟩ := settled_eq_ok_iff.mp hsettled
  obtain ⟨y, env₁, hmove, h₂⟩ := Scribe.tacit_bind_eq_ok_iff.mp h₁
  obtain ⟨hcost, rfl⟩ := Scribe.entering_eq_ok_iff.mp h₂
  exact ⟨_, ⟨⟨v, refusing_eq_ok_iff.mp hmul, hmove⟩, hcost, rfl⟩, rfl⟩

theorem Ends.cons {j b : Nat} {w : Workshop ε} {a : Evaluation ε α}
    {res : EStateM.Result (Fault α) (Workshop ε) α}
    (tried : Tried r p x g (r.stepAt j) w.env a value env)
    (rejected : r.accepts start slope (r.stepAt j) value = false)
    (h : Ends r p x g start slope k budget (j + 1) b ⟨env, w.journal⟩ es res) :
    Ends r p x g start slope k budget j b w (a :: es) res := by
  cases h with
  | accepted bound rejects tried' accepts =>
    exact .accepted bound (.cons tried rejected rejects) tried' accepts
  | exhausted rejects => exact .exhausted (.cons tried rejected rejects)
  | failed bound rejects fails => exact .failed bound (.cons tried rejected rejects) fails

theorem trial_cases (step : α) (w : Workshop ε) :
    (∃ a value env, Tried r p x g step w.env a value env ∧
      Scribe.within (Workshop.surroundings ε) (Narrated.trial r p x g step) w =
        ([a], .ok value ⟨env, w.journal⟩)) ∨
    ∃ es e env, r.trial p x g step w.env = .error e env ∧
      Scribe.within (Workshop.surroundings ε) (Narrated.trial r p x g step) w =
        (es, .error e ⟨env, w.journal⟩) := by
  rcases htrial : Narrated.trial r p x g step w.env with ⟨es, ⟨value, env⟩ | ⟨e, env⟩⟩
  · obtain ⟨a, tried, rfl⟩ := tried_of_trial htrial
    exact .inl ⟨a, value, env, tried, Scribe.within_eq_ok_iff.mpr ⟨env, htrial, rfl⟩⟩
  · refine .inr ⟨es, e, env, ?_, Scribe.within_of_error htrial⟩
    rw [← outcome_trial]
    exact congrArg Prod.snd htrial

theorem ends_of_rest {j b : Nat} {w : Workshop ε} (hj : j ≤ b)
    {rest : Scribe (Evaluation ε α) (Fault α) (Workshop ε) α}
    (hrest : ∀ a value env, Tried r p x g (r.stepAt j) w.env a value env →
      r.accepts start slope (r.stepAt j) value = false →
      Ends r p x g start slope k budget j b w (a :: (rest ⟨env, w.journal⟩).1)
        (rest ⟨env, w.journal⟩).2) :
    let run := Scribe.within (Workshop.surroundings ε) (Narrated.trial r p x g (r.stepAt j)) >>=
      fun value => if r.accepts start slope (r.stepAt j) value then do
        Scribe.tacit (journalise (acceptance (r.stepAt j) j k))
        pure (r.stepAt j)
      else rest
    Ends r p x g start slope k budget j b w (run w).1 (run w).2 := by
  intro run
  rcases trial_cases (r.stepAt j) w with ⟨a, value, env, tried, hasked⟩ | ⟨es, e, env, hfails, hasked⟩
  · have hrun : run w = _ := Scribe.bind_of_ok hasked
    rw [hrun]
    by_cases haccepts : r.accepts start slope (r.stepAt j) value = true
    · rw [if_pos haccepts]
      exact .accepted hj .nil tried haccepts
    · rw [if_neg haccepts]
      exact hrest a value env tried (Bool.eq_false_iff.mpr haccepts)
  · have hrun : run w = _ := Scribe.bind_of_error hasked
    rw [hrun]
    exact .failed hj .nil hfails

theorem search_ends (left j : Nat) (w : Workshop ε) :
    Ends r p x g start slope k budget j (j + left) w
      (Narrated.search r p x g start slope k budget (left + 1) j (r.stepAt j) w).1
      (Narrated.search r p x g start slope k budget (left + 1) j (r.stepAt j) w).2 := by
  induction left generalizing j w with
  | zero =>
    refine ends_of_rest (Nat.le_add_right j 0) fun a value env tried rejected => ?_
    exact .exhausted (.cons tried rejected .nil)
  | succ left ih =>
    refine ends_of_rest (Nat.le_add_right j _) fun a value env tried rejected => ?_
    have hrest := ih (j + 1) ⟨env, w.journal⟩
    have hlast : j + 1 + left = j + (left + 1) := by omega
    rw [hlast] at hrest
    exact hrest.cons tried rejected

end Search

/-- Ways in which a search is cut short: the gradient, a cost or a map cannot be had. -/
inductive Fails (r : Armijo ε α) (p : Problem ε α) (s : Position α) (b : Nat) (env : ε) :
    Fault α → Prop
  | gradient {e : Fault α} {env' : ε} (fails : gradientOf p s env = .error e env') :
      Fails r p s b env e
  | cost {g : Point α} {e : Fault α} {env₁ env' : ε} (gradient : gradientOf p s env = .ok g env₁)
      (fails : p.costAt s.x env₁ = .error e env') : Fails r p s b env e
  | inner {g : Point α} {e : Fault α} {env₁ : ε} (gradient : gradientOf p s env = .ok g env₁)
      (fails : p.manifold.inner s.x g g = .error e) : Fails r p s b env e
  | slope {g product : Datum α} {c : Refusal} {env₁ : ε}
      (gradient : gradientOf p s env = .ok g env₁)
      (inner : p.manifold.inner s.x g g = .ok product) (fails : product.toReal = .error c) :
      Fails r p s b env (.refused c)
  | trial {g : Point α} {start slope : α} {first : Evaluation ε α} {env₁ env₂ env' : ε}
      {es : List (Evaluation ε α)} {j : Nat} {e : Fault α}
      (surveyed : Surveyed p s g start slope env first env₁) (bound : j ≤ b)
      (rejects : Rejects r p s.x g start slope 0 j env₁ es env₂)
      (fails : r.trial p s.x g (r.stepAt j) env₂ = .error e env') : Fails r p s b env e

theorem next_of_surveyed {w : Workshop ε} {first : Evaluation ε α} {env : ε}
    (surveyed : Surveyed p s g start slope w.env first env) :
    Narrated.next r p settings s k w =
      (first :: (Narrated.choose r p settings s.x k g start slope ⟨env, w.journal⟩).1,
        (Narrated.choose r p settings s.x k g start slope ⟨env, w.journal⟩).2) := by
  obtain ⟨point, before, outcome⟩ := first
  obtain ⟨hg, rfl, hcost, rfl, product, hproduct, hslope⟩ := surveyed
  have hasked : asking (gradientOf p s) w = .ok g ⟨before, w.journal⟩ :=
    Part.run_of_ok (Workshop.surroundings ε) hg
  have hevaluated : Scribe.within (Workshop.surroundings ε) (Narrated.cost p s.x)
      ⟨before, w.journal⟩ = ([⟨s.x, before, .ok start env⟩], .ok start ⟨env, w.journal⟩) :=
    Scribe.within_eq_ok_iff.mpr ⟨env, Scribe.entering_eq_ok_iff.mpr ⟨hcost, rfl⟩, rfl⟩
  unfold Narrated.next
  rw [Scribe.tacit_bind_of_ok hasked, Scribe.bind_of_ok hevaluated, hproduct,
    Scribe.tacit_bind_of_ok (settled_ok _ _), hslope]
  rfl

theorem next_surveyed (b : Nat) (w : Workshop ε) :
    (∃ e w', (Narrated.next r p settings s k w).2 = .error e w' ∧ Fails r p s b w.env e) ∨
    ∃ g start slope first env, Surveyed p s g start slope w.env first env ∧
      Narrated.next r p settings s k w =
        (first :: (Narrated.choose r p settings s.x k g start slope ⟨env, w.journal⟩).1,
          (Narrated.choose r p settings s.x k g start slope ⟨env, w.journal⟩).2) := by
  suffices hcases : (∃ e w', (Narrated.next r p settings s k w).2 = .error e w' ∧
      Fails r p s b w.env e) ∨
      ∃ g start slope first env, Surveyed p s g start slope w.env first env by
    rcases hcases with hfails | ⟨g, start, slope, first, env, surveyed⟩
    · exact .inl hfails
    · exact .inr ⟨g, start, slope, first, env, surveyed, next_of_surveyed surveyed⟩
  unfold Narrated.next
  -- the gradient, the cost, the product and its number, in the order in which they are asked for
  rcases hg : gradientOf p s w.env with ⟨g, env₁⟩ | ⟨e, env₁⟩
  · have hasked : asking (gradientOf p s) w = .ok g ⟨env₁, w.journal⟩ :=
      Part.run_of_ok (Workshop.surroundings ε) hg
    rw [Scribe.tacit_bind_of_ok hasked]
    rcases hcost : p.costAt s.x env₁ with ⟨start, env⟩ | ⟨e, env⟩
    · have hevaluated : Scribe.within (Workshop.surroundings ε) (Narrated.cost p s.x)
          ⟨env₁, w.journal⟩ = ([⟨s.x, env₁, .ok start env⟩], .ok start ⟨env, w.journal⟩) :=
        Scribe.within_eq_ok_iff.mpr ⟨env, Scribe.entering_eq_ok_iff.mpr ⟨hcost, rfl⟩, rfl⟩
      rw [Scribe.bind_of_ok hevaluated]
      rcases hproduct : p.manifold.inner s.x g g with e | product
      · exact .inl ⟨e, _, rfl, .inner hg hproduct⟩
      · rcases hslope : product.toReal with c | slope
        · refine .inl ⟨.refused c, ⟨env, w.journal⟩, ?_, .slope hg hproduct hslope⟩
          rw [Scribe.tacit_bind_of_ok (settled_ok _ _), hslope]
          rfl
        · exact .inr ⟨g, start, slope, ⟨s.x, env₁, .ok start env⟩, env, hg, rfl, hcost, rfl, product,
            hproduct, hslope⟩
    · refine .inl ⟨e, ⟨env, w.journal⟩, ?_, .cost hg hcost⟩
      have hevaluated : Scribe.within (Workshop.surroundings ε) (Narrated.cost p s.x)
          ⟨env₁, w.journal⟩ = ([⟨s.x, env₁, .error e env⟩], .error e ⟨env, w.journal⟩) := by
        refine Scribe.within_of_error (Prod.ext ?_ hcost)
        exact congrArg (fun r => [Evaluation.mk s.x env₁ r]) hcost
      rw [Scribe.bind_of_error hevaluated]
  · refine .inl ⟨e, ⟨env₁, w.journal⟩, ?_, .gradient hg⟩
    have hasked : asking (gradientOf p s) w = .error e ⟨env₁, w.journal⟩ :=
      Part.run_of_error (Workshop.surroundings ε) hg
    rw [Scribe.tacit_bind_of_error hasked]

theorem choose_of_trials {n : Nat} (budget : trials (r.budgetOf settings) = .ok n)
    (hslope : Scalar.eq slope 0 = false) (w : Workshop ε) :
    Narrated.choose r p settings x k g start slope w =
      Narrated.search r p x g start slope k (r.budgetOf settings) n 0 (r.stepAt 0) w := by
  rw [Narrated.choose, if_neg (Bool.eq_false_iff.mp hslope), budget]
  exact Scribe.tacit_bind_of_ok (settled_ok _ _)

theorem choose_ends {b : Nat} (budget : trials (r.budgetOf settings) = .ok (b + 1))
    (hslope : Scalar.eq slope 0 = false) (w : Workshop ε) :
    Ends r p x g start slope k (r.budgetOf settings) 0 b w
      (Narrated.choose r p settings x k g start slope w).1
      (Narrated.choose r p settings x k g start slope w).2 := by
  have hends : Ends r p x g start slope k (r.budgetOf settings) 0 (0 + b) w _ _ :=
    search_ends b 0 w
  rw [Nat.zero_add] at hends
  rw [choose_of_trials budget hslope]
  exact hends

/-- The law of the search. Unless something fails on the way, a search with a budget of `b`
contractions evaluates the cost at its point first. Where the gradient vanishes the answer is the
initial step; elsewhere it is the first trial step that is accepted, or the search is exhausted
after the trials up to the `b`-th, which is the step it reports. The options are left alone. -/
theorem search_law {b : Nat} (budget : trials (r.budgetOf settings) = .ok (b + 1)) :
    (Narrated.next r p settings s k).outcome = r.next settings p s k ∧
    (∀ u : Stepping ε α, (left ((Stepping.workshop ε α).run (r.next settings p s k) u)).position =
      u.position) ∧
    ∀ w : Workshop ε,
      (∃ e w', r.next settings p s k w = .error e w' ∧ Fails r p s b w.env e) ∨
      ∃ g start slope first env, Surveyed p s g start slope w.env first env ∧
        (Scalar.eq slope 0 = true →
          Narrated.next r p settings s k w = ([first], .ok r.initial ⟨env, w.journal⟩)) ∧
        (Scalar.eq slope 0 = false → ∃ es env',
          (∃ j ≤ b, ∃ last value env'', Rejects r p s.x g start slope 0 j env es env' ∧
            es.length = j ∧ Tried r p s.x g (r.stepAt j) env' last value env'' ∧
            r.accepts start slope (r.stepAt j) value = true ∧
            Narrated.next r p settings s k w = (first :: (es ++ [last]),
              .ok (r.stepAt j) ⟨env'', w.journal.push (acceptance (r.stepAt j) j k)⟩)) ∨
          (Rejects r p s.x g start slope 0 (b + 1) env es env' ∧ es.length = b + 1 ∧
            Narrated.next r p settings s k w = (first :: es,
              .error (.exhausted (r.stepAt b) k s.x (r.budgetOf settings)) ⟨env', w.journal⟩))) := by
  refine ⟨outcome_next, fun u => ?_, fun w => ?_⟩
  · rw [left_run]
    rfl
  rw [← outcome_next]
  rcases next_surveyed (r := r) (p := p) b w with
    hfails | ⟨g, start, slope, first, env, surveyed, hrun⟩
  · exact .inl hfails
  rw [Scribe.outcome, hrun]
  by_cases hzero : Scalar.eq slope 0 = true
  · refine .inr ⟨g, start, slope, first, env, surveyed, fun _ => ?_, fun hnonzero => ?_⟩
    · rw [Narrated.choose, if_pos hzero]
      rfl
    · cases hzero.symm.trans hnonzero
  have hends : Ends r p s.x g start slope k (r.budgetOf settings) 0 b ⟨env, w.journal⟩ _ _ :=
    choose_ends budget (Bool.eq_false_iff.mpr hzero) ⟨env, w.journal⟩
  generalize Narrated.choose r p settings s.x k g start slope ⟨env, w.journal⟩ = run at hends ⊢
  obtain ⟨es, res⟩ := run
  cases hends with
  | failed bound rejects fails => exact .inl ⟨_, _, rfl, .trial surveyed bound rejects fails⟩
  | exhausted rejects =>
    have hlength : es.length = b + 1 := by
      rw [← rejects.length, Nat.zero_add]
    exact .inr ⟨g, start, slope, first, env, surveyed, fun hslope => absurd hslope hzero,
      fun _ => ⟨es, _, .inr ⟨rejects, hlength, rfl⟩⟩⟩
  | @accepted j _ _ es last value bound rejects tried accepts =>
    have hlength : es.length = j := by
      rw [← rejects.length, Nat.zero_add]
    exact .inr ⟨g, start, slope, first, env, surveyed, fun hslope => absurd hslope hzero,
      fun _ => ⟨es, _, .inl ⟨j, bound, last, value, _, rejects, hlength, tried, accepts, rfl⟩⟩⟩

open Solver in
theorem search_law_halving : ∃ es step w j,
    Narrated.next halving valley .standard hillside.state.position (.whole 1) ⟨(), .empty⟩ =
      (es, .ok step w) ∧ 0 < j ∧ step = halving.stepAt j ∧ es.length = j + 2 := by
  obtain ⟨step, w, hnext, hstep⟩ : ∃ step w, halving.next .standard valley
      hillside.state.position (.whole 1) ⟨(), .empty⟩ = .ok step w ∧ step ≠ halving.initial := by
    decide +kernel
  have hbudget : trials (halving.budgetOf .standard) = .ok (100 + 1) := rfl
  obtain ⟨hlists, -, hlaw⟩ :=
    search_law (p := valley) (s := hillside.state.position) (k := .whole 1) hbudget
  have hrun : (Narrated.next halving valley .standard hillside.state.position (.whole 1)
      ⟨(), .empty⟩).2 = .ok step w := by
    rw [← hnext, ← hlists]
    rfl
  rcases hlaw ⟨(), .empty⟩ with ⟨e, w', herror, -⟩ | ⟨g, start, slope, first, env, -, hflat, hslope⟩
  · cases hnext.symm.trans herror
  rcases hzero : Scalar.eq slope 0 with _ | _
  · obtain ⟨es, env', ⟨j, -, last, value, env'', -, hlength, -, -, hends⟩ | ⟨-, -, hends⟩⟩ :=
      hslope hzero
    · rw [hends] at hrun
      cases hrun
      refine ⟨_, _, _, j, hends, ?_, rfl, ?_⟩
      · refine Nat.pos_of_ne_zero fun hfirst => ?_
        subst hfirst
        exact hstep rfl
      · rw [List.length_cons, List.length_append, hlength]
        rfl
    · rw [hends] at hrun
      cases hrun
  · rw [hflat hzero] at hrun
    cases hrun
    exact absurd rfl hstep

end Geodescent.Armijo
