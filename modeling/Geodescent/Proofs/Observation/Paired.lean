import Geodescent.Proofs.Observation.Congruent
import Geodescent.Proofs.Run.Law

/-! Two runs side by side whose observers may remember different things. As long as telling every
decorator keeps the relation between what the observers see, the runs make the same calls over the
same states, answer or fail alike and end in sessions that are related again. -/
namespace Geodescent

/-- Sessions that differ in nothing but what their observers see, which is related by `R`. -/
structure Session.Paired {ε α : Type} (R : Observing ε α → Observing ε α → Prop)
    (s s' : Session ε α) : Prop where
  settings : s'.settings = s.settings
  state : s'.state = s.state
  nodes : s'.nodes = s.nodes
  journal : s'.journal = s.journal
  observing : R ((observing ε α).get s) ((observing ε α).get s')

namespace Session.Paired
variable {ε α : Type} {R R' : Observing ε α → Observing ε α → Prop} {s s' : Session ε α}

theorem mono (h : s.Paired R s') (hR : ∀ o o', R o o' → R' o o') : s.Paired R' s' :=
  ⟨h.settings, h.state, h.nodes, h.journal, hR _ _ h.observing⟩

theorem advance (h : s.Paired R s') (f : State α → State α) :
    (s.advance f).Paired R (s'.advance f) :=
  ⟨h.settings, congrArg f h.state, h.nodes, h.journal, h.observing⟩

theorem note (h : s.Paired R s') (entry : JournalEntry) :
    (s.note entry).Paired R (s'.note entry) :=
  ⟨h.settings, h.state, h.nodes, congrArg (·.push entry) h.journal, h.observing⟩

theorem observed {u u' : Observing ε α} (h : s.Paired R s') (hu : R' u u') :
    ((Session.observing ε α).set u s).Paired R' ((Session.observing ε α).set u' s') :=
  ⟨h.settings, h.state, h.nodes, h.journal, hu⟩

theorem moment (h : s.Paired R s') (p : Problem ε α) (k : Int) (stopped : Bool) :
    s'.moment p k stopped = s.moment p k stopped := by
  rw [Session.moment, h.settings, h.state, Session.moment]

end Session.Paired

namespace Solver
variable {ε α : Type} {p : Problem ε α} {o : Options ε α} {chain : List (Decorator ε α)}
  {solver : Solver ε α} {ws : List Nat} {R S : Observing ε α → Observing ε α → Prop}

/-- The same call in two runs: begun in related sessions, it comes to the same. -/
structure Visit.Paired (R : Observing ε α → Observing ε α → Prop) (v v' : Visit ε α) : Prop where
  call : v'.call = v.call
  before : v.before.Paired R v'.before
  outcome : Parallel (Session.Paired R) (Session.Paired R) v.outcome v'.outcome

theorem Visit.Paired.mono {v v' : Visit ε α} (h : v.Paired R v') (hR : ∀ o o', R o o' → S o o') :
    v.Paired S v' :=
  ⟨h.call, h.before.mono hR,
    h.outcome.mono (fun _ _ h => h.mono hR) fun _ _ h => h.mono hR⟩

section Respected
variable (respected : Observing.Respected ws R)
include respected

theorem twin_stepping {β : Type} (m : Stepwise ε α β) :
    Twin (Session.Paired R) (Session.Paired R) (Session.Paired R)
      ((Session.stepping ε α).run m) ((Session.stepping ε α).run m) := by
  refine .shared m (fun s s' h => ?_) fun s s' u h => ?_
  · have henv : s'.env = s.env := respected.env h.observing
    simp only [Session.stepping, henv, h.journal, h.state]
  · refine ⟨h.settings, ?_, h.nodes, rfl, respected.surrounded h.observing u.env⟩
    simp only [Session.stepping, h.state]

theorem twin_judging {β : Type} (m : EStateM (Fault α) (Judging ε α) β) :
    Twin (Session.Paired R) (Session.Paired R) (Session.Paired R)
      ((Session.judging ε α).run m) ((Session.judging ε α).run m) := by
  refine .shared m (fun s s' h => ?_) fun s s' u h => ?_
  · have henv : s'.env = s.env := respected.env h.observing
    simp only [Session.judging, henv, h.nodes]
  · exact ⟨h.settings, h.state, rfl, h.journal, respected.surrounded h.observing u.env⟩

end Respected

section Books
variable [Scalar α]

omit [Scalar α] in
theorem twin_advance (f : State α → State α) :
    Twin (Session.Paired R) (Session.Paired R) (Session.Paired R)
      (modify (Session.advance f) : Run ε α Unit) (modify (Session.advance f)) :=
  .modify fun _ _ h => h.advance f

omit [Scalar α] in
theorem twin_note (entry : JournalEntry) :
    Twin (Session.Paired R) (Session.Paired R) (Session.Paired R)
      (modify (Session.note entry) : Run ε α Unit) (modify (Session.note entry)) :=
  .modify fun _ _ h => h.note entry

theorem twin_validate :
    Twin (Session.Paired R) (Session.Paired R) (Session.Paired R) (validate p) (validate p) := by
  refine .reading fun s s' h => ?_
  rw [h.state, h.settings]
  refine .bind (.settled _ fun _ _ h => h) fun x => ?_
  exact .bind (twin_advance _) fun _ => .settled _ fun _ _ h => h

omit [Scalar α] in
theorem twin_measure (x : Point α) (k : Nat) :
    Twin (Session.Paired R) (Session.Paired R) (Session.Paired R) (Narrated.measure p x k)
      (Narrated.measure p x k) := by
  refine .bind (twin_advance _) fun _ => .reading fun s s' h => ?_
  rw [h.state]
  refine .bind (.settled _ fun _ _ h => h) fun c => ?_
  exact .bind (twin_advance _) fun _ => .pure c

theorem twin_close (n : Nat) :
    Twin (Session.Paired R) (Session.Paired R) (Session.Paired R) (Narrated.close o solver n)
      (Narrated.close o solver n) := by
  refine .bind (S := Session.Paired R) (.modify fun s s' h => ?_) fun _ => .reading fun s s' h => ?_
  · rw [h.nodes]
    exact h.advance _
  · rw [h.state]
    exact twin_note _

end Books

section Calls
variable [Scalar α] (respected : Observing.Respected ws R)

theorem twin_hook {phase : Phase} {k : Nat} {d : Decorator ε α}
    (h : ∀ s, Twin R S R (d.tell phase (told p phase k s)) (d.tell phase (told p phase k s))) :
    Twin (Session.Paired R) (Session.Paired S) (Session.Paired R)
      ((Call.hook phase k d).perform p o solver) ((Call.hook phase k d).perform p o solver) := by
  refine .reading fun s s' hs => ?_
  rw [hs.moment]
  refine .bind (S := Session.Paired S) (.within (h s) ?_ ?_ ?_) fun _ => .pure false
  · exact fun _ _ h => h.observing
  · exact fun _ _ _ _ h hu => h.observed hu
  · exact fun _ _ _ _ h hu => h.observed hu

include respected in
theorem twin_perform {c : Call ε α} (hc : ∀ phase k d, c = .hook phase k d → ∀ s,
    Twin R R R (d.tell phase (told p phase k s)) (d.tell phase (told p phase k s))) :
    Twin (Session.Paired R) (Session.Paired R) (Session.Paired R) (c.perform p o solver)
      (c.perform p o solver) := by
  cases c with
  | prepare => exact .bind (twin_stepping respected _) fun _ => .pure false
  | hook phase k d => exact twin_hook (hc phase k d rfl)
  | judge k =>
    refine .reading fun s s' h => ?_
    rw [h.state]
    exact twin_judging respected _
  | step k =>
    refine .reading fun s s' h => ?_
    rw [h.settings]
    exact .bind (twin_stepping respected _) fun _ => .pure false

abbrev PairedRuns {β : Type} (R : Observing ε α → Observing ε α → Prop)
    (w : Narrated.Tale ε α β) : Prop :=
  Scribe.Twin (Session.Paired R) (Session.Paired R) (Session.Paired R) (Visit.Paired R) w w

theorem paired_visit {c : Call ε α}
    (h : Twin (Session.Paired R) (Session.Paired R) (Session.Paired R) (c.perform p o solver)
      (c.perform p o solver)) : PairedRuns R (Narrated.visit p o solver c) :=
  .entering h fun s s' hs => ⟨rfl, hs, h s s' hs⟩

include respected in
theorem paired_other {c : Call ε α} (hc : ∀ phase k d, c ≠ .hook phase k d) :
    PairedRuns R (Narrated.visit p o solver c) :=
  paired_visit (twin_perform respected fun phase k d h => absurd h (hc phase k d))

omit [Scalar α] in
theorem paired_tacit {β : Type} {m : Run ε α β}
    (h : Twin (Session.Paired R) (Session.Paired R) (Session.Paired R) m m) :
    PairedRuns R (Scribe.tacit m) := .tacit h

theorem paired_hooks {phase : Phase} {k : Nat} (h : ∀ d ∈ chain, ∀ s,
    Twin R R R (d.tell phase (told p phase k s)) (d.tell phase (told p phase k s))) :
    PairedRuns R (Narrated.visitEach p o solver (hooks chain phase k)) := by
  induction chain with
  | nil => exact .pure ()
  | cons d ds ih =>
    have hrest := ih fun e he => h e (List.mem_cons_of_mem d he)
    exact .bind (paired_visit (twin_hook (h d List.mem_cons_self))) fun _ => hrest

variable (keeps : ∀ d ∈ chain, ∀ phase k s, phase ≠ .start →
  Twin R R R (d.tell phase (told p phase k s)) (d.tell phase (told p phase k s)))
include respected keeps

theorem paired_pass (k : Nat) : PairedRuns R (Narrated.pass p o chain solver k) := by
  refine .reading fun before before' h => ?_
  rw [h.state]
  refine .bind (paired_other respected (Call.step_ne_hook k)) fun _ => ?_
  refine .bind (paired_tacit (twin_measure _ k)) fun change => ?_
  refine .bind (paired_hooks fun d hd s => keeps d hd .iteration k s nofun) fun _ => ?_
  exact paired_tacit (twin_note _)

theorem paired_onward (fuel done : Nat) (stop : Bool) :
    PairedRuns R (Narrated.onward p o chain solver fuel done stop) := by
  induction fuel, done, stop using Narrated.onward.induct with
  | case1 fuel done =>
    rw [Narrated.onward]
    exact .pure done
  | case2 done => exact paired_tacit (.throw _ fun _ _ h => h)
  | case3 fuel done ih =>
    rw [Narrated.onward]
    refine .bind (paired_pass respected keeps (done + 1)) fun _ => ?_
    exact .bind (paired_other respected (Call.judge_ne_hook _)) fun stop => ih stop

theorem paired_proceed (fuel : Nat) : PairedRuns R (Narrated.proceed p o chain solver fuel) := by
  refine .bind (paired_other respected (Call.judge_ne_hook 0)) fun stop => ?_
  refine .bind (paired_onward respected keeps fuel 0 stop) fun n => ?_
  refine .bind (paired_tacit (twin_close n)) fun _ => ?_
  exact paired_hooks fun d hd s => keeps d hd .stop n s nofun

end Calls
end Solver
end Geodescent
