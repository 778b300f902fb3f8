import Geodescent.Proofs.Run.Course

/-! Invariants that count. What preparation makes true of the position after no iteration, and each
iteration carries on, is true in every call of every run of the position after as many iterations as
have been done: `Numbered.history`. -/
namespace Geodescent.Solver
variable {ε α : Type} [Scalar α] {p : Problem ε α} {o : Options ε α} {chain : List (Decorator ε α)}
  {solver : Solver ε α} {X : Position α → Prop} {P : Nat → Position α → Prop}

/-- What holds of positions: `X` of accepted starting points, and `P k` after `k` iterations. -/
structure Numbered (p : Problem ε α) (o : Options ε α) (solver : Solver ε α)
    (X : Position α → Prop) (P : Nat → Position α → Prop) : Prop where
  prepared : ∀ s b t, X s.state.position → Call.prepare.perform p o solver s = .ok b t →
    P 0 t.state.position
  stepped : ∀ k s b t, P k s.state.position → (Call.step (k + 1)).perform p o solver s = .ok b t →
    P (k + 1) t.state.position

structure Visit.Numbered (chain : List (Decorator ε α)) (X : Position α → Prop)
    (P : Nat → Position α → Prop) (v : Visit ε α) : Prop where
  opening : v.call = .prepare → X v.before.state.position
  before : v.call ≠ .prepare → P v.call.done v.before.state.position
  after : ∀ k b t, v.call = .step k → v.outcome = .ok b t → 0 < k ∧ P k t.state.position
  attached : ∀ phase k d, v.call = .hook phase k d → d ∈ chain

def Session.After (P : Nat → Position α → Prop) (k : Nat) (s : Session ε α) : Prop :=
  s.state.iteration = .whole (Int.ofNat k) ∧ P k s.state.position

omit [Scalar α] in
theorem numbered_of_done {c : Call ε α} {k : Nat} {s : Session ε α}
    {r : EStateM.Result (Fault α) (Session ε α) Bool} (hc : c ≠ .prepare) (hk : c.done = k)
    (hstep : ∀ j, c ≠ .step j) (hchain : ∀ phase j d, c = .hook phase j d → d ∈ chain)
    (hs : P k s.state.position) : Visit.Numbered chain X P ⟨c, s, r⟩ where
  opening h := absurd h hc
  before _ := by rw [hk]; exact hs
  after j _ _ h := absurd h (hstep j)
  attached := hchain

theorem after_hooks (phase : Phase) (k : Nat) :
    Scribe.Leads (Narrated.visitEach p o solver (hooks chain phase k)) (Session.After P k)
      (Visit.Numbered chain X P) (Session.After P k) := by
  refine leads_visitEach fun c hc => ?_
  obtain ⟨d, hd, rfl⟩ := List.mem_map.mp hc
  refine .entering (fun s hs => numbered_of_done nofun rfl nofun ?_ hs.2) fun s b t hs h => ?_
  · rintro _ _ _ ⟨⟩
    exact hd
  · rw [Session.After, (perform_hook h).2.1]
    exact hs

theorem after_judge (k : Nat) :
    Scribe.Leads (Narrated.visit p o solver (.judge k)) (Session.After P k)
      (Visit.Numbered chain X P) (Session.After P k) := by
  refine .entering (fun s hs => numbered_of_done nofun rfl nofun nofun hs.2) fun s b t hs h => ?_
  rw [Session.After, perform_judge h]
  exact hs

omit [Scalar α] in
theorem after_note (entry : JournalEntry) (k : Nat) :
    Scribe.Leads (Scribe.tacit (modify (Session.note entry)) : Narrated.Tale ε α Unit)
      (Session.After P k) (Visit.Numbered chain X P) (Session.After P k) :=
  .tacit fun s _ t hs h => by cases h; exact hs

theorem after_finish (n : Nat) :
    Scribe.Leads (Narrated.finish p o chain solver n) (Session.After P n) (Visit.Numbered chain X P)
      (Session.After P n) :=
  .bind (.tacit fun s _ t hs h => by cases h; exact hs) fun _ => after_hooks .stop n

namespace Numbered
variable (inv : Numbered p o solver X P)
include inv

theorem after_pass (k : Nat) :
    Scribe.Leads (Narrated.pass p o chain solver (k + 1)) (Session.After P k) (Visit.Numbered chain X P)
      (Session.After P (k + 1)) := by
  have steps : Scribe.Leads (Narrated.visit p o solver (.step (k + 1))) (Session.After P k)
      (Visit.Numbered chain X P) fun t => P (k + 1) t.state.position := by
    refine .entering (fun s hs => ⟨nofun, fun _ => hs.2, fun j b t hj h => ?_, nofun⟩)
      fun s b t hs h => ?_
    · cases hj
      exact ⟨Nat.succ_pos k, inv.stepped k s b t hs.2 h⟩
    · exact inv.stepped k s b t hs.2 h
  have measures (x : Point α) :
      Scribe.Leads (Scribe.tacit (Narrated.measure p x (k + 1)) : Narrated.Tale ε α α)
      (fun t => P (k + 1) t.state.position) (Visit.Numbered chain X P) (Session.After P (k + 1)) := by
    refine .tacit fun s change t hs h => ?_
    obtain ⟨-, rfl⟩ := measure_eq_ok_iff.mp h
    exact ⟨rfl, hs⟩
  refine .bind (.tacit fun s b t hs h => by cases h; exact hs) fun before => ?_
  refine .bind steps fun _ => .bind (measures before.state.x) fun change => ?_
  exact .bind (after_hooks .iteration (k + 1)) fun _ => after_note _ _

theorem after_onward (fuel done : Nat) (stop : Bool) :
    Scribe.Leads (Narrated.onward p o chain solver fuel done stop >>= Narrated.finish p o chain solver)
      (Session.After P done) (Visit.Numbered chain X P) fun t => ∃ n, Session.After P n t := by
  induction fuel, done, stop using Narrated.onward.induct with
  | case1 fuel done =>
    rw [Narrated.onward]
    exact (after_finish done).ending fun t ht => ⟨done, ht⟩
  | case2 done =>
    refine .bind (J := fun _ => False) (.tacit fun s b t _ h => ?_) fun n s hs => hs.elim
    cases h
  | case3 fuel done ih =>
    rw [Narrated.onward, Scribe.bind_bind]
    refine .bind (inv.after_pass done) fun _ => ?_
    rw [Scribe.bind_bind]
    exact .bind (after_judge (done + 1)) fun stop => ih stop

theorem after_course (fuel : Nat) :
    Scribe.Leads (Narrated.course p o chain solver fuel) (Session.After P 0) (Visit.Numbered chain X P)
      fun t => ∃ n, Session.After P n t := by
  refine .bind (after_hooks .start 0) fun _ => .bind (after_note _ 0) fun _ => ?_
  exact .bind (after_judge 0) fun stop => inv.after_onward fuel 0 stop

/-- Every call of a run, failing ones included, finds the position of the iterations done before it,
and a run that returns leaves the position of all of its iterations. -/
theorem history {s : Session ε α} (accepted : ∀ t, validate p s = .ok () t → X t.state.position)
    (fuel : Nat) :
    (∀ v ∈ history fuel p o chain solver s, v.Numbered chain X P) ∧
    ∀ t, solve fuel p o chain solver s = .ok () t →
      ∃ n, t.state.iteration = .whole (Int.ofNat n) ∧ P n t.state.position := by
  have opens : Scribe.Leads (Scribe.tacit (validate p) : Narrated.Tale ε α Unit) (· = s)
      (Visit.Numbered chain X P)
      fun t => X t.state.position :=
    .tacit fun s' _ t hs h => by subst hs; exact accepted t h
  have begins : Scribe.Leads (Scribe.tacit (modify (Session.advance opened)) : Narrated.Tale ε α Unit)
      (fun t => X t.state.position) (Visit.Numbered chain X P)
      fun t => t.state.iteration = .whole 0 ∧ X t.state.position :=
    .tacit fun s' _ t hs h => by cases h; exact ⟨rfl, hs⟩
  have prepares : Scribe.Leads (Narrated.visit p o solver .prepare)
      (fun t => t.state.iteration = .whole 0 ∧ X t.state.position) (Visit.Numbered chain X P)
      (Session.After P 0) := by
    refine .entering (fun s hs => ⟨fun _ => hs.2, fun h => absurd rfl h, nofun, nofun⟩)
      fun s b t hs h => ?_
    refine ⟨?_, inv.prepared s b t hs.2 h⟩
    rw [(perform_prepare h).2]
    exact hs.1
  -- validation, the opening of the books and the preparation lead up to iteration zero
  have key : Scribe.Leads (Narrated.solve p o chain solver fuel) (· = s) (Visit.Numbered chain X P)
      fun t => ∃ n, Session.After P n t :=
    .bind opens fun _ => .bind begins fun _ => .bind prepares fun _ => inv.after_course fuel
  obtain ⟨hcalls, hend⟩ := key s rfl
  rw [← outcome_solve]
  exact ⟨hcalls, hend ()⟩

end Numbered
end Geodescent.Solver
