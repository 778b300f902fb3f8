import Geodescent.Proofs.Twin
import Geodescent.Solver.Sweep

/-! What happens between two calls of the criterion. Neither the solvers of the library nor the loop
around them look at the criterion, at what its nodes remember or at the journal: in sessions that
differ in nothing else a run begins and goes on alike, whatever criterion it has. -/
namespace Geodescent
variable {ε α : Type}

def Options.judgedBy (o : Options ε α) (c : Criterion ε α) : Options ε α := { o with criterion := c }

def Workshop.Alike (w w' : Workshop ε) : Prop := w'.env = w.env

structure Stepping.Alike (s s' : Stepping ε α) : Prop where
  env : s'.env = s.env
  position : s'.position = s.position

/-- Sessions that differ in nothing but the journal and what criteria remember. -/
structure Session.Alike (s s' : Session ε α) : Prop where
  env : s'.env = s.env
  settings : s'.settings = s.settings
  state : s'.state = s.state
  memory : s'.memory = s.memory
  console : s'.console = s.console

namespace Session.Alike
variable {s t u : Session ε α}

theorem refl (s : Session ε α) : s.Alike s := ⟨rfl, rfl, rfl, rfl, rfl⟩

theorem trans (h : s.Alike t) (g : t.Alike u) : s.Alike u :=
  ⟨g.env.trans h.env, g.settings.trans h.settings, g.state.trans h.state,
    g.memory.trans h.memory, g.console.trans h.console⟩

theorem advance (h : s.Alike t) (f : State α → State α) : (s.advance f).Alike (t.advance f) :=
  ⟨h.env, h.settings, congrArg f h.state, h.memory, h.console⟩

theorem note (h : s.Alike t) (entry entry' : JournalEntry) :
    (s.note entry).Alike (t.note entry') := ⟨h.env, h.settings, h.state, h.memory, h.console⟩

end Session.Alike

abbrev Unread {β : Type} (m m' : Working ε α β) : Prop :=
  Twin Workshop.Alike Workshop.Alike Workshop.Alike m m'

theorem unread_asking {β : Type} (m : Asking ε α β) : Unread (asking m) (asking m) :=
  .shared m (fun _ _ h => Eq.symm h) fun _ _ _ _ => rfl

theorem unread_settled {β : Type} (a : Answer α β) : Unread (ε := ε) (settled a) (settled a) :=
  .settled a fun _ _ h => h

namespace Armijo
variable [Scalar α] (r : Armijo ε α) (p : Problem ε α) (x g : Point α) (start slope : α)
  (iteration budget : Datum α)

theorem unread_search (left contractions : Nat) (step : α) :
    Unread (r.search p x g start slope iteration budget left contractions step)
      (r.search p x g start slope iteration budget left contractions step) := by
  induction left generalizing contractions step with
  | zero => exact .throw _ fun _ _ h => h
  | succ left ih =>
    refine .bind (unread_asking (r.trial p x g step)) fun value => ?_
    split
    · exact .bind (.modify fun _ _ h => h) fun _ => .pure step
    · exact ih _ _

theorem unread_next (settings : Settings α) (s : Position α) :
    Unread (r.next settings p s iteration) (r.next settings p s iteration) := by
  refine .bind (unread_asking _) fun g => .bind (unread_asking _) fun start => ?_
  refine .bind (unread_settled _) fun product => .bind (unread_settled _) fun slope => ?_
  split
  · exact .pure r.initial
  · exact .bind (unread_settled _) fun count => r.unread_search p s.x g start slope iteration _ _ _ _

end Armijo

theorem Stepsize.unread_next [Scalar α] (rule : Stepsize ε α) (settings : Settings α)
    (p : Problem ε α) (s : Position α) (iteration : Datum α) :
    Unread (rule.next settings p s iteration) (rule.next settings p s iteration) := by
  cases rule with
  | constant length => exact .pure _
  | decreasing schedule => exact unread_settled _
  | armijo r => exact .bind (r.unread_next p iteration settings s) fun step => .pure _
  | custom kind shown rule => exact unread_asking _
  | value d => exact .throw _ fun _ _ h => h

namespace Solver
variable [Scalar α] {p : Problem ε α} {o : Options ε α} {chain : List (Decorator ε α)}
  {solver : Solver ε α}

abbrev Blind {β : Type} (m m' : Stepwise ε α β) : Prop :=
  Twin Stepping.Alike Stepping.Alike Stepping.Alike m m'

/-- A solver that follows the rules whatever the criterion, and never reads the journal. -/
structure Heedless (solver : Solver ε α) : Prop where
  prepare : ∀ p (o : Options ε α) c, Blind (solver.prepare p o) (solver.prepare p (o.judgedBy c))
  step : ∀ settings p (o : Options ε α) c k,
    Blind (solver.step settings p o k) (solver.step settings p (o.judgedBy c) k)

section Steps
variable (p o)

omit [Scalar α] in
theorem blind_asking {β : Type} (m : Asking ε α β) :
    Blind ((Stepping.surroundings ε α).run m) ((Stepping.surroundings ε α).run m) :=
  .shared m (fun _ _ h => h.env.symm) fun _ _ _ h => ⟨rfl, h.position⟩

omit [Scalar α] in
theorem blind_settled {β : Type} (a : Answer α β) : Blind (ε := ε) (settled a) (settled a) :=
  .settled a fun _ _ h => h

omit [Scalar α] in
theorem blind_place (f : Position α → Position α) :
    Blind (ε := ε) (modify (Stepping.place f)) (modify (Stepping.place f)) :=
  .modify fun _ _ h => ⟨h.env, congrArg f h.position⟩

omit [Scalar α] in
theorem blind_refreshGradient : Blind (refreshGradient p) (refreshGradient p) := by
  refine .reading fun s s' h => ?_
  rw [h.position]
  exact .bind (blind_asking _) fun g => blind_place _

theorem blind_nextStep (settings : Settings α) (k : Int) (allowZero : Bool) :
    Blind (nextStep settings p o k allowZero) (nextStep settings p o k allowZero) := by
  refine .reading fun s s' h => ?_
  rw [h.position]
  have hrule : Blind ((Stepping.workshop ε α).run
      (o.stepsize.next settings p s.position (.whole k)))
      ((Stepping.workshop ε α).run (o.stepsize.next settings p s.position (.whole k))) :=
    .within (o.stepsize.unread_next settings p s.position (.whole k)) (fun _ _ h => h.env)
      (fun _ _ _ _ h hu => ⟨hu, h.position⟩) fun _ _ _ _ h hu => ⟨hu, h.position⟩
  refine .bind hrule fun answer => .bind (blind_settled _) fun step => ?_
  exact .bind (blind_place _) fun _ => .pure step

end Steps

theorem heedless_descent : Heedless (descent : Solver ε α) where
  prepare p o c := .bind (blind_settled _) fun _ => blind_refreshGradient p
  step settings p o c k := by
    refine .bind (blind_nextStep p o settings k true) fun step => ?_
    refine .bind (blind_settled _) fun move => .reading fun s s' h => ?_
    rw [h.position]
    refine .bind (blind_settled _) fun v => .bind (blind_asking _) fun y => ?_
    exact .bind (blind_place _) fun _ => blind_refreshGradient p

theorem heedless_sweep : Heedless (sweep : Solver ε α) where
  prepare p o c := by
    refine .bind (blind_settled _) fun order => .bind (blind_settled _) fun _ => ?_
    change Blind (if o.stepsize.needsGradient then _ else _)
      (if o.stepsize.needsGradient then _ else _)
    split
    · exact .throw _ fun _ _ h => h
    · exact .pure ()
  step settings p o c k := by
    refine .bind (blind_nextStep p o settings k false) fun step => ?_
    refine .bind (blind_settled _) fun maps => .reading fun s s' h => ?_
    rw [h.position]
    exact .bind (blind_asking _) fun y => blind_place _

section Books

abbrev Apace {β : Type} (m m' : Run ε α β) : Prop :=
  Twin Session.Alike Session.Alike Session.Alike m m'

omit [Scalar α] in
theorem apace_settled {β : Type} (a : Answer α β) : Apace (ε := ε) (settled a) (settled a) :=
  .settled a fun _ _ h => h

omit [Scalar α] in
theorem apace_advance (f : State α → State α) :
    Apace (ε := ε) (modify (Session.advance f)) (modify (Session.advance f)) :=
  .modify fun _ _ h => h.advance f

omit [Scalar α] in
theorem apace_note (entry entry' : JournalEntry) :
    Apace (ε := ε) (α := α) (modify (Session.note entry)) (modify (Session.note entry')) :=
  .modify fun _ _ h => h.note entry entry'

omit [Scalar α] in
theorem apace_stepping {β : Type} {m m' : Stepwise ε α β} (h : Blind m m') :
    Apace ((Session.stepping ε α).run m) ((Session.stepping ε α).run m') := by
  have hset : ∀ (s s' : Session ε α) (u u' : Stepping ε α), s.Alike s' → u.Alike u' →
      ((Session.stepping ε α).set u s).Alike ((Session.stepping ε α).set u' s') := by
    intro s s' u u' hs hu
    refine ⟨hu.env, hs.settings, ?_, hs.memory, hs.console⟩
    simp only [Session.stepping, hs.state, hu.position]
  exact .within h (fun _ _ h => ⟨h.env, congrArg State.position h.state⟩) hset hset

theorem apace_validate (p : Problem ε α) : Apace (validate p) (validate p) := by
  refine .reading fun s s' h => ?_
  rw [h.state, h.settings]
  refine .bind (apace_settled _) fun v => ?_
  exact .bind (apace_advance _) fun _ => apace_settled _

theorem apace_tell (p : Problem ε α) (chain : List (Decorator ε α)) (phase : Phase) (k : Int) :
    Apace (tell p chain phase k) (tell p chain phase k) := by
  refine .reading fun s s' h => ?_
  have hmoment : s'.moment p k (phase = .stop) = s.moment p k (phase = .stop) := by
    rw [Session.moment, h.settings, h.state, Session.moment]
  rw [hmoment]
  refine .shared _ (fun _ _ h => ?_) fun _ _ _ h => ⟨rfl, h.settings, h.state, rfl, rfl⟩
  simp only [Session.observing, h.env, h.memory, h.console]

variable (p o chain)

theorem apace_begin (heedless : solver.Heedless) (c : Criterion ε α) :
    Apace (begin p o chain solver) (begin p (o.judgedBy c) chain solver) := by
  refine .bind (apace_validate p) fun _ => .bind (apace_advance opened) fun _ => ?_
  refine .bind (apace_stepping (heedless.prepare p o c)) fun _ => ?_
  -- the entry that opens a run names the criterion, but only the journal has it
  exact .bind (apace_tell p chain .start 0) fun _ => apace_note _ _

theorem apace_pass (heedless : solver.Heedless) (c : Criterion ε α) (k : Int) :
    Apace (pass p o chain solver k) (pass p (o.judgedBy c) chain solver k) := by
  refine .reading fun s s' h => ?_
  rw [h.settings, h.state]
  refine .bind (apace_stepping (heedless.step _ p o c k)) fun _ => ?_
  refine .bind (apace_advance _) fun _ => .reading fun t t' ht => ?_
  rw [ht.state]
  refine .bind (apace_settled _) fun change => .bind (apace_advance _) fun _ => ?_
  exact .bind (apace_tell p chain .iteration k) fun _ => apace_note _ _

end Books
end Solver
end Geodescent
