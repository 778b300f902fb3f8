import Geodescent.Proofs.Run.Call

/-! Invariants of runs. What the solver prepares, every other call keeps and the books do not touch
holds in every call of every run, also of one that fails later on: `Invariant.history`. -/
namespace Geodescent

/-- Sessions that differ in nothing but the books and the journal. -/
structure Session.Agrees {ε α : Type} (s t : Session ε α) : Prop where
  env : t.env = s.env
  settings : t.settings = s.settings
  nodes : t.nodes = s.nodes
  memory : t.memory = s.memory
  console : t.console = s.console
  position : t.state.position = s.state.position

namespace Session.Agrees
variable {ε α : Type} {s t u : Session ε α}

theorem refl (s : Session ε α) : s.Agrees s := ⟨rfl, rfl, rfl, rfl, rfl, rfl⟩

theorem trans (h : s.Agrees t) (g : t.Agrees u) : s.Agrees u :=
  ⟨g.env.trans h.env, g.settings.trans h.settings, g.nodes.trans h.nodes,
    g.memory.trans h.memory, g.console.trans h.console, g.position.trans h.position⟩

end Session.Agrees

namespace Solver
variable {ε α : Type} [Scalar α] {p : Problem ε α} {o : Options ε α} {chain : List (Decorator ε α)}
  {solver : Solver ε α}

section Books
variable {s t : Session ε α}

omit [Scalar α] in
theorem measure_eq_ok_iff {x : Point α} {k : Nat} {change : α} :
    Narrated.measure p x k s = .ok change t ↔ p.manifold.dist x s.state.x = .ok change ∧
      t = s.advance fun state =>
        { state with iteration := .whole (Int.ofNat k), lastChange := .real change } := by
  change (settled (p.manifold.dist x s.state.x) >>= fun change => _) _ = _ ↔ _
  rcases p.manifold.dist x s.state.x with e | d
  · simp [bind_of_error (settled_error _ _)]
  · rw [settled_ok_bind]
    constructor
    · rintro ⟨⟩
      exact ⟨rfl, rfl⟩
    · rintro ⟨⟨⟩, rfl⟩
      rfl

omit [Scalar α] in
theorem agrees_measure {x : Point α} {k : Nat} {change : α}
    (h : Narrated.measure p x k s = .ok change t) : s.Agrees t := by
  obtain ⟨_, rfl⟩ := measure_eq_ok_iff.mp h
  exact ⟨rfl, rfl, rfl, rfl, rfl, rfl⟩

theorem agrees_close {n : Nat} (h : Narrated.close o solver n s = .ok () t) : s.Agrees t := by
  cases h
  exact ⟨rfl, rfl, rfl, rfl, rfl, rfl⟩

omit [Scalar α] in
theorem agrees_note (entry : JournalEntry) (s : Session ε α) : s.Agrees (s.note entry) :=
  ⟨rfl, rfl, rfl, rfl, rfl, rfl⟩

theorem agrees_opened (s : Session ε α) : s.Agrees (s.advance opened) :=
  ⟨rfl, rfl, rfl, rfl, rfl, rfl⟩

end Books

theorem leads_visitEach {I : Session ε α → Prop} {A : Visit ε α → Prop} {cs : List (Call ε α)}
    (h : ∀ c ∈ cs, Scribe.Leads (Narrated.visit p o solver c) I A I) :
    Scribe.Leads (Narrated.visitEach p o solver cs) I A I := by
  induction cs with
  | nil => exact .pure ()
  | cons c cs ih =>
    have hcs := ih fun c hc => h c (List.mem_cons_of_mem _ hc)
    exact .bind (h c List.mem_cons_self) fun _ => hcs

/-- What holds of every call after the first: `I` before it and `A` of the call itself. -/
structure Invariant (p : Problem ε α) (o : Options ε α) (solver : Solver ε α)
    (I : Session ε α → Prop) (A : Visit ε α → Prop) : Prop where
  books : ∀ s t, s.Agrees t → I s → I t
  opening : ∀ s, A ⟨.prepare, s, Call.prepare.perform p o solver s⟩
  prepared : ∀ s b t, Call.prepare.perform p o solver s = .ok b t → I t
  noted : ∀ (c : Call ε α) s, c ≠ .prepare → I s → A ⟨c, s, c.perform p o solver s⟩
  kept : ∀ (c : Call ε α) s b t, c ≠ .prepare → I s → c.perform p o solver s = .ok b t → I t

namespace Invariant
variable {I : Session ε α → Prop} {A : Visit ε α → Prop} (inv : Invariant p o solver I A)
include inv

theorem keeps_visit {c : Call ε α} (hc : c ≠ .prepare) :
    Scribe.Leads (Narrated.visit p o solver c) I A I :=
  .entering (fun s => inv.noted c s hc) fun s b t => inv.kept c s b t hc

theorem keeps_visitEach (phase : Phase) (k : Nat) :
    Scribe.Leads (Narrated.visitEach p o solver (hooks chain phase k)) I A I := by
  refine leads_visitEach fun c hc => inv.keeps_visit ?_
  obtain ⟨d, rfl⟩ := mem_hooks hc
  exact nofun

theorem keeps_note (entry : JournalEntry) :
    Scribe.Leads (Scribe.tacit (modify (Session.note entry)) : Narrated.Tale ε α Unit) I A I :=
  .tacit fun s _ _ hs h => by cases h; exact inv.books _ _ (agrees_note entry s) hs

theorem keeps_pass (k : Nat) : Scribe.Leads (Narrated.pass p o chain solver k) I A I := by
  refine .bind (.tacit fun s b t hs h => by cases h; exact hs) fun before => ?_
  refine .bind (inv.keeps_visit nofun) fun _ => ?_
  refine .bind (.tacit fun s b t hs h => inv.books s t (agrees_measure h) hs) fun change => ?_
  exact .bind (inv.keeps_visitEach .iteration k) fun _ => inv.keeps_note _

theorem keeps_onward (fuel done : Nat) (stop : Bool) :
    Scribe.Leads (Narrated.onward p o chain solver fuel done stop) I A I := by
  induction fuel, done, stop using Narrated.onward.induct with
  | case1 fuel done =>
    rw [Narrated.onward]
    exact .pure done
  | case2 done => exact .tacit fun s b t _ h => by cases h
  | case3 fuel done ih =>
    have hjudge : (Call.judge (done + 1) : Call ε α) ≠ .prepare := by
      intro h
      cases h
    refine .bind (inv.keeps_pass (done + 1)) fun _ => ?_
    exact .bind (inv.keeps_visit hjudge) fun stop => ih stop

theorem keeps_finish (n : Nat) : Scribe.Leads (Narrated.finish p o chain solver n) I A I :=
  .bind (.tacit fun s _ t hs h => inv.books s t (agrees_close h) hs) fun _ =>
    inv.keeps_visitEach .stop n

theorem keeps_course (fuel : Nat) :
    Scribe.Leads (Narrated.course p o chain solver fuel) I A I := by
  refine .bind (inv.keeps_visitEach .start 0) fun _ => ?_
  refine .bind (inv.keeps_note _) fun _ => ?_
  refine .bind (inv.keeps_visit nofun) fun stop => ?_
  exact .bind (inv.keeps_onward fuel 0 stop) fun n => inv.keeps_finish n

/-- An invariant holds in every call of every run and at the end. -/
theorem history (fuel : Nat) (s : Session ε α) :
    (∀ v ∈ history fuel p o chain solver s, A v) ∧
      ∀ t, solve fuel p o chain solver s = .ok () t → I t := by
  have key : Scribe.Leads (Narrated.solve p o chain solver fuel) (fun _ => True) A I := by
    -- nothing is known of the session before the position has been prepared
    refine .bind (.tacit fun _ _ _ h _ => h) fun _ => ?_
    refine .bind (.tacit fun _ _ _ h _ => h) fun _ => ?_
    exact .bind (.entering (fun s _ => inv.opening s) fun s b t _ => inv.prepared s b t) fun _ =>
      inv.keeps_course fuel
  obtain ⟨hA, hI⟩ := key s trivial
  rw [← outcome_solve]
  exact ⟨hA, hI ()⟩

end Invariant
end Solver
end Geodescent
