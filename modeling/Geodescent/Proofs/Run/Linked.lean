import Geodescent.Proofs.Run.Course

/-! Calls of which each starts where the one before ended. The calls of every run that returns are
linked in this way, and so are those of each of its parts. -/
namespace Geodescent.Solver
variable {ε α : Type} [Scalar α]

/-- Calls of which each starts where the one before ended, up to the books. -/
inductive Linked : Session ε α → List (Visit ε α) → Session ε α → Prop
  | nil {s t : Session ε α} : s.Agrees t → Linked s [] t
  | cons {s t u : Session ε α} {v : Visit ε α} {vs : List (Visit ε α)} {b : Bool} :
      s.Agrees v.before → v.outcome = .ok b u → Linked u vs t → Linked s (v :: vs) t

omit [Scalar α] in
theorem Linked.of_agrees {s t u : Session ε α} {vs : List (Visit ε α)} (h : s.Agrees t)
    (g : Linked t vs u) : Linked s vs u := by
  cases g with
  | nil hu => exact .nil (h.trans hu)
  | cons hv hu rest => exact .cons (h.trans hv) hu rest

omit [Scalar α] in
theorem Linked.append {s t u : Session ε α} {vs ws : List (Visit ε α)} (h : Linked s vs t)
    (g : Linked t ws u) : Linked s (vs ++ ws) u := by
  induction h with
  | nil hs => exact .of_agrees hs g
  | cons hv hu _ ih => exact .cons hv hu (ih g)

omit [Scalar α] in
theorem Linked.split {s t : Session ε α} {vs ws : List (Visit ε α)} (h : Linked s (vs ++ ws) t) :
    ∃ m, Linked s vs m ∧ Linked m ws t := by
  induction vs generalizing s with
  | nil => exact ⟨s, .nil (.refl s), h⟩
  | cons v vs ih =>
    cases h with
    | cons hv hu rest =>
      obtain ⟨m, hvs, hws⟩ := ih rest
      exact ⟨m, .cons hv hu hvs, hws⟩

omit [Scalar α] in
theorem Linked.returned {s t : Session ε α} {vs : List (Visit ε α)} (h : Linked s vs t) :
    ∀ v ∈ vs, ∃ b u, v.outcome = .ok b u := by
  induction h with
  | nil _ => exact fun _ hv => absurd hv List.not_mem_nil
  | cons _ hu _ ih => exact List.forall_mem_cons.mpr ⟨⟨_, _, hu⟩, ih⟩

section Links

def Links {β : Type} (w : Narrated.Tale ε α β) : Prop :=
  ∀ s vs b t, w s = (vs, .ok b t) → Linked s vs t

omit [Scalar α] in
theorem Links.pure {β : Type} (b : β) : Links (Pure.pure b : Narrated.Tale ε α β) := by
  intro s vs c t h
  obtain ⟨rfl, rfl, rfl⟩ := Scribe.pure_eq_ok_iff.mp h
  exact .nil (.refl _)

omit [Scalar α] in
theorem Links.bind {β γ : Type} {w : Narrated.Tale ε α β} {f : β → Narrated.Tale ε α γ}
    (hw : Links w) (hf : ∀ b, Links (f b)) : Links (w >>= f) := by
  intro s vs c t h
  obtain ⟨b, u, fs, gs, hu, ht, rfl⟩ := Scribe.bind_eq_ok_iff.mp h
  exact (hw s fs b u hu).append (hf b u gs c t ht)

omit [Scalar α] in
theorem Links.tacit {β : Type} {m : Run ε α β} (h : ∀ s b t, m s = .ok b t → s.Agrees t) :
    Links (Scribe.tacit m : Narrated.Tale ε α β) := by
  intro s vs b t ht
  obtain ⟨hm, rfl⟩ := Scribe.tacit_eq_ok_iff.mp ht
  exact .nil (h s b t hm)

variable {p : Problem ε α} {o : Options ε α} {chain : List (Decorator ε α)} {solver : Solver ε α}

theorem links_visit (c : Call ε α) : Links (Narrated.visit p o solver c) := by
  intro s vs b t h
  obtain ⟨-, rfl⟩ := visit_eq_ok_iff.mp h
  exact .cons (.refl s) rfl (.nil (.refl t))

theorem links_visitEach (cs : List (Call ε α)) : Links (Narrated.visitEach p o solver cs) := by
  induction cs with
  | nil => exact .pure ()
  | cons c cs ih => exact .bind (links_visit c) fun _ => ih

omit [Scalar α] in
theorem links_note (entry : JournalEntry) :
    Links (Scribe.tacit (modify (Session.note entry)) : Narrated.Tale ε α Unit) :=
  .tacit fun s _ _ h => by cases h; exact agrees_note entry s

theorem links_pass (k : Nat) : Links (Narrated.pass p o chain solver k) := by
  refine .bind (.tacit fun s b t h => ?_) fun before => .bind (links_visit _) fun _ => ?_
  · cases h
    exact .refl s
  refine .bind (.tacit fun s b t h => agrees_measure h) fun change => ?_
  exact .bind (links_visitEach _) fun _ => links_note _

theorem links_onward (fuel done : Nat) (stop : Bool) :
    Links (Narrated.onward p o chain solver fuel done stop) := by
  induction fuel, done, stop using Narrated.onward.induct with
  | case1 fuel done =>
    rw [Narrated.onward]
    exact .pure done
  | case2 done => exact .tacit fun s b t h => by cases h
  | case3 fuel done ih =>
    exact .bind (links_pass _) fun _ => .bind (links_visit _) fun stop => ih stop

theorem links_course (fuel : Nat) : Links (Narrated.course p o chain solver fuel) := by
  refine .bind (links_visitEach _) fun _ => .bind (links_note _) fun _ => ?_
  refine .bind (links_visit _) fun stop => .bind (links_onward fuel 0 stop) fun n => ?_
  exact .bind (.tacit fun s b t h => agrees_close h) fun _ => links_visitEach _

end Links
end Geodescent.Solver
