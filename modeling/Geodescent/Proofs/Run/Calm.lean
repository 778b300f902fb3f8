import Geodescent.Proofs.Run.Course

/-! Runs that do not fail. A part of a run can only fail in a call, for want of the length of a step,
or by going on for too long, which takes a criterion that never holds. -/
namespace Geodescent.Solver
variable {ε α : Type} [Scalar α]

/-- A call that does not fail, and of which the length is known if it is a step. -/
def Visit.Calm (p : Problem ε α) (v : Visit ε α) : Prop :=
  ∃ b t, v.outcome = .ok b t ∧
    ∀ k, v.call = .step k → ∃ d, p.manifold.dist v.before.state.x t.state.x = .ok d

instance (p : Problem ε α) : DecidablePred (Visit.Calm p) := fun v =>
  match v with
  | ⟨_, _, .error _ _⟩ => .isFalse fun ⟨_, _, h, _⟩ => by cases h
  | ⟨.prepare, _, .ok b t⟩ => .isTrue ⟨b, t, rfl, nofun⟩
  | ⟨.hook .., _, .ok b t⟩ => .isTrue ⟨b, t, rfl, nofun⟩
  | ⟨.judge _, _, .ok b t⟩ => .isTrue ⟨b, t, rfl, nofun⟩
  | ⟨.step k, s, .ok b t⟩ =>
    match hd : p.manifold.dist s.state.x t.state.x with
    | .ok d => .isTrue ⟨b, t, rfl, fun _ _ => ⟨d, hd⟩⟩
    | .error e => .isFalse fun ⟨_, _, h, hlength⟩ => by
      cases h
      obtain ⟨d, hd'⟩ := hlength k rfl
      cases hd.symm.trans hd'

/-- A call at which the criterion held. -/
def Visit.Stops (v : Visit ε α) : Prop := ∃ k t, v.call = .judge k ∧ v.outcome = .ok true t

instance : DecidablePred (Visit.Stops : Visit ε α → Prop) := fun v =>
  match v with
  | ⟨.judge k, _, .ok true t⟩ => .isTrue ⟨k, t, rfl, rfl⟩
  | ⟨.judge _, _, .ok false _⟩ => .isFalse fun ⟨_, _, _, h⟩ => by cases h
  | ⟨.judge _, _, .error _ _⟩ => .isFalse fun ⟨_, _, _, h⟩ => by cases h
  | ⟨.prepare, _, _⟩ => .isFalse fun ⟨_, _, h, _⟩ => by cases h
  | ⟨.hook .., _, _⟩ => .isFalse fun ⟨_, _, h, _⟩ => by cases h
  | ⟨.step _, _, _⟩ => .isFalse fun ⟨_, _, h, _⟩ => by cases h

omit [Scalar α] in
theorem Visit.not_stops_of_call {v : Visit ε α} (h : ∀ k, v.call ≠ .judge k) : ¬ v.Stops := by
  rintro ⟨k, t, hk, -⟩
  exact h k hk

omit [Scalar α] in
theorem Visit.not_stops_of_answer {v : Visit ε α} {t : Session ε α} (h : v.outcome = .ok false t) :
    ¬ v.Stops := by
  rintro ⟨k, u, -, hu⟩
  cases h.symm.trans hu

section Failures
variable {p : Problem ε α} {o : Options ε α} {chain : List (Decorator ε α)} {solver : Solver ε α}
  {s t : Session ε α} {vs : List (Visit ε α)} {e : Fault α}

theorem blames_visit (c : Call ε α) : (Narrated.visit p o solver c).Blames (Visit.Calm p) := by
  refine .entering fun s e t => ?_
  rintro ⟨b, u, h, -⟩
  cases h

theorem blames_visitEach (cs : List (Call ε α)) :
    (Narrated.visitEach p o solver cs).Blames (Visit.Calm p) := by
  induction cs with
  | nil => exact .pure ()
  | cons c cs ih => exact .bind (blames_visit c) fun _ => ih

omit [Scalar α] in
theorem blames_note (entry : JournalEntry) :
    (Scribe.tacit (modify (Session.note entry)) : Narrated.Tale ε α Unit).Blames (Visit.Calm p) :=
  .tacit fun s e t h => by cases h

theorem blames_pass (k : Nat) :
    (Narrated.pass p o chain solver k).Blames (Visit.Calm p) := by
  intro s e t vs h
  rcases Scribe.tacit_bind_eq_error_iff.mp h with ⟨hget, -⟩ | ⟨_, s', hget, h₁⟩
  · cases hget
  cases hget
  rcases Scribe.bind_eq_error_iff.mp h₁ with hv | ⟨b, u, _, _, hv, h₂, rfl⟩
  · exact blames_visit _ s e t _ hv
  obtain ⟨-, rfl⟩ := visit_eq_ok_iff.mp hv
  rcases Scribe.tacit_bind_eq_error_iff.mp h₂ with ⟨hm, rfl⟩ | ⟨change, m, -, h₃⟩
  · refine ⟨⟨.step k, s, .ok b u⟩, List.mem_cons_self, ?_⟩
    rintro ⟨_, _, hout, hlength⟩
    cases hout
    obtain ⟨d, hd⟩ := hlength k rfl
    have hok := (measure_eq_ok_iff (k := k)).mpr ⟨hd, rfl⟩
    rw [hm] at hok
    cases hok
  · have rest : Scribe.Blames (do
        Narrated.visitEach p o solver (hooks chain .iteration k)
        Scribe.tacit (modify (Session.note (passEntry (Int.ofNat k) change)))) (Visit.Calm p) :=
      .bind (blames_visitEach _) fun _ => blames_note _
    obtain ⟨v, hv, hnot⟩ := rest m e t _ h₃
    exact ⟨v, List.mem_cons_of_mem _ hv, hnot⟩

theorem blames_finish (n : Nat) : (Narrated.finish p o chain solver n).Blames (Visit.Calm p) := by
  have closes : ∀ s e t, Narrated.close o solver n s ≠ .error e t := by
    intro s e t h
    cases h
  exact .bind (.tacit closes) fun _ => blames_visitEach _

theorem visit_bind_error {β : Type} {c : Call ε α} {f : Bool → Narrated.Tale ε α β}
    (calm : ∀ v ∈ vs, v.Calm p)
    (h : (Narrated.visit p o solver c >>= f) s = (vs, .error e t)) :
    ∃ b u ws, f b u = (ws, .error e t) ∧ vs = ⟨c, s, .ok b u⟩ :: ws := by
  rcases Scribe.bind_eq_error_iff.mp h with hv | ⟨b, u, _, ws, hv, hf, rfl⟩
  · exact ((blames_visit _).elim hv calm).elim
  · obtain ⟨-, rfl⟩ := visit_eq_ok_iff.mp hv
    exact ⟨b, u, ws, hf, rfl⟩

theorem silent_visit {c : Call ε α} (hc : ∀ k, c ≠ .judge k) :
    Scribe.Leads (Narrated.visit p o solver c) (fun _ => True) (fun v => ∀ k, v.call ≠ .judge k)
      fun _ => True :=
  .entering (fun _ _ => hc) fun _ _ _ _ _ => trivial

theorem silent_hooks (phase : Phase) (k : Nat) :
    Scribe.Leads (Narrated.visitEach p o solver (hooks chain phase k)) (fun _ => True)
      (fun v => ∀ j, v.call ≠ .judge j) fun _ => True := by
  refine leads_visitEach fun c hc => ?_
  obtain ⟨d, rfl⟩ := mem_hooks hc
  exact silent_visit nofun

theorem silent_pass (k : Nat) :
    Scribe.Leads (Narrated.pass p o chain solver k) (fun _ => True) (fun v => ∀ j, v.call ≠ .judge j)
      fun _ => True := by
  refine .bind (.tacit fun _ _ _ _ _ => trivial) fun before => ?_
  refine .bind (silent_visit nofun) fun _ => ?_
  refine .bind (.tacit fun _ _ _ _ _ => trivial) fun change => ?_
  exact .bind (silent_hooks .iteration k) fun _ => .tacit fun _ _ _ _ _ => trivial

theorem silent_finish (n : Nat) :
    Scribe.Leads (Narrated.finish p o chain solver n) (fun _ => True)
      (fun v => ∀ j, v.call ≠ .judge j) fun _ => True :=
  .bind (.tacit fun _ _ _ _ _ => trivial) fun _ => silent_hooks .stop n

theorem onward_error {fuel done : Nat} {stop : Bool} (calm : ∀ v ∈ vs, v.Calm p)
    (h : Narrated.onward p o chain solver fuel done stop s = (vs, .error e t)) :
    stop = false ∧ (∀ v ∈ vs, ¬ v.Stops) ∧
      (fuel = 0 ∨ ∃ v ∈ vs, v.call = .judge (done + fuel)) := by
  induction fuel, done, stop using Narrated.onward.induct generalizing s vs with
  | case1 fuel done =>
    rw [Narrated.onward] at h
    cases (Prod.mk.inj h).2
  | case2 done =>
    obtain ⟨rfl, -⟩ := Prod.mk.inj h
    exact ⟨rfl, fun _ hv => absurd hv List.not_mem_nil, .inl rfl⟩
  | case3 fuel done ih =>
    -- neither the iteration nor the criterion can have failed, so that the rest did
    rcases Scribe.bind_eq_error_iff.mp h with hp | ⟨_, m, fs, _, hp, h₁, rfl⟩
    · exact ((blames_pass _).elim hp calm).elim
    have calm₁ := (List.forall_mem_append.mp calm).2
    obtain ⟨stop, w, ws, h₂, rfl⟩ := visit_bind_error calm₁ h₁
    obtain ⟨rfl, hws, hlast⟩ := ih _ (List.forall_mem_cons.mp calm₁).2 h₂
    refine ⟨rfl, ?_, .inr ?_⟩
    · rw [List.forall_mem_append, List.forall_mem_cons]
      have hsilent := (silent_pass (done + 1)).entries trivial hp
      exact ⟨fun v hv => Visit.not_stops_of_call (hsilent v hv), Visit.not_stops_of_answer rfl, hws⟩
    · have hsum : done + (fuel + 1) = done + 1 + fuel := by omega
      rw [hsum]
      rcases hlast with rfl | ⟨v, hv, hk⟩
      · exact ⟨_, List.mem_append_right _ List.mem_cons_self, rfl⟩
      · exact ⟨v, List.mem_append_right _ (List.mem_cons_of_mem _ hv), hk⟩

theorem course_error {fuel : Nat} (calm : ∀ v ∈ vs, v.Calm p)
    (h : Narrated.course p o chain solver fuel s = (vs, .error e t)) :
    (∀ v ∈ vs, ¬ v.Stops) ∧ ∃ v ∈ vs, v.call = .judge fuel := by
  rcases Scribe.bind_eq_error_iff.mp h with hs | ⟨_, u, starts, _, hs, h₁, rfl⟩
  · exact ((blames_visitEach _).elim hs calm).elim
  have calm₁ := (List.forall_mem_append.mp calm).2
  rcases Scribe.tacit_bind_eq_error_iff.mp h₁ with ⟨hn, -⟩ | ⟨_, m, -, h₂⟩
  · cases hn
  obtain ⟨stop, w, _, h₃, rfl⟩ := visit_bind_error calm₁ h₂
  have calm₂ := (List.forall_mem_cons.mp calm₁).2
  rcases Scribe.bind_eq_error_iff.mp h₃ with ho | ⟨n, r, _, _, -, hf, rfl⟩
  · obtain ⟨rfl, hws, hlast⟩ := onward_error calm₂ ho
    constructor
    · rw [List.forall_mem_append, List.forall_mem_cons]
      have hsilent := (silent_hooks .start 0).entries trivial hs
      exact ⟨fun v hv => Visit.not_stops_of_call (hsilent v hv), Visit.not_stops_of_answer rfl, hws⟩
    · rw [Nat.zero_add] at hlast
      rcases hlast with rfl | ⟨v, hv, hk⟩
      · exact ⟨_, List.mem_append_right _ List.mem_cons_self, rfl⟩
      · exact ⟨v, List.mem_append_right _ (List.mem_cons_of_mem _ hv), hk⟩
  · exact ((blames_finish n).elim hf (List.forall_mem_append.mp calm₂).2).elim

theorem solve_error {fuel : Nat} {s₁ : Session ε α} (accepted : validate p s = .ok () s₁)
    (calm : ∀ v ∈ vs, v.Calm p)
    (h : Narrated.solve p o chain solver fuel s = (vs, .error e t)) :
    (∀ v ∈ vs, ¬ v.Stops) ∧ ∃ v ∈ vs, v.call = .judge fuel := by
  rcases Scribe.tacit_bind_eq_error_iff.mp h with ⟨hv, -⟩ | ⟨_, s', -, h₁⟩
  · rw [accepted] at hv
    cases hv
  rcases Scribe.tacit_bind_eq_error_iff.mp h₁ with ⟨hm, -⟩ | ⟨_, u, -, h₂⟩
  · cases hm
  -- only the course can have failed
  obtain ⟨_, w, _, hc, rfl⟩ := visit_bind_error calm h₂
  obtain ⟨hsilent, v, hv, hk⟩ := course_error (List.forall_mem_cons.mp calm).2 hc
  refine ⟨?_, v, List.mem_cons_of_mem _ hv, hk⟩
  rw [List.forall_mem_cons]
  exact ⟨Visit.not_stops_of_call nofun, hsilent⟩

theorem solve_of_calm {fuel : Nat} {s₁ : Session ε α} (accepted : validate p s = .ok () s₁)
    (calm : ∀ v ∈ history fuel p o chain solver s, v.Calm p)
    (holds : ∃ v ∈ history fuel p o chain solver s, v.Stops) :
    ∃ t, Narrated.solve p o chain solver fuel s =
      (history fuel p o chain solver s, .ok () t) := by
  rcases h : Narrated.solve p o chain solver fuel s with ⟨vs, ⟨_, t⟩ | ⟨e, t⟩⟩
  · exact ⟨t, by rw [history, h]⟩
  · rw [history, h] at calm holds
    obtain ⟨v, hv, hstops⟩ := holds
    exact absurd hstops ((solve_error accepted calm h).1 v hv)

end Failures
end Geodescent.Solver
