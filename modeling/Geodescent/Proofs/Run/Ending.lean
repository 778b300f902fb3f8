import Geodescent.Proofs.Run.Law

/-! How long a run is. A run in which the criterion held after `n` iterations has taken the steps
`1, ..., n` and no other one, and nothing but a hook of the end can still fail: `lasts_of_stops`. -/
namespace Geodescent.Solver
variable {ε α : Type} [Scalar α]

namespace Narrated
variable (p : Problem ε α) (o : Options ε α) (chain : List (Decorator ε α)) (solver : Solver ε α)

def begin : Tale ε α Unit := do
  Scribe.tacit (validate p)
  Scribe.tacit (modify (Session.advance opened))
  let _ ← visit p o solver .prepare
  visitEach p o solver (hooks chain .start 0)
  Scribe.tacit (modify (Session.note (openingEntry p o solver)))

end Narrated

/-- The criterion was asked after `n` iterations, and held. -/
def Visit.StopsAfter (n : Nat) (v : Visit ε α) : Prop :=
  v.call = .judge n ∧ ∃ t, v.outcome = .ok true t

instance (n : Nat) : DecidablePred (Visit.StopsAfter n : Visit ε α → Prop) := fun v =>
  match v with
  | ⟨.judge k, _, .ok true t⟩ =>
    decidable_of_iff (k = n) ⟨fun h => ⟨congrArg _ h, t, rfl⟩, fun ⟨h, _⟩ => by cases h; rfl⟩
  | ⟨.judge _, _, .ok false _⟩ => .isFalse fun ⟨_, _, h⟩ => by cases h
  | ⟨.judge _, _, .error _ _⟩ => .isFalse fun ⟨_, _, h⟩ => by cases h
  | ⟨.prepare, _, _⟩ => .isFalse fun ⟨h, _⟩ => by cases h
  | ⟨.hook .., _, _⟩ => .isFalse fun ⟨h, _⟩ => by cases h
  | ⟨.step _, _, _⟩ => .isFalse fun ⟨h, _⟩ => by cases h

section Runs
variable {p : Problem ε α} {o : Options ε α} {chain : List (Decorator ε α)} {solver : Solver ε α}
  {s t : Session ε α} {v : Visit ε α} {vs : List (Visit ε α)} {n fuel : Nat}

theorem outcome_begin : (Narrated.begin p o chain solver).outcome = begin p o chain solver := by
  simp only [Narrated.begin, Narrated.visit, begin, Call.perform, Scribe.outcome_bind,
    Scribe.outcome_tacit, Scribe.outcome_entering, outcome_visitEach, bind_assoc, pure_bind]
  rfl

theorem solve_eq_begin (fuel : Nat) : Narrated.solve p o chain solver fuel =
    Narrated.begin p o chain solver >>= fun _ => Narrated.proceed p o chain solver fuel := by
  simp only [Narrated.solve, Narrated.course, Narrated.begin, Narrated.proceed,
    Scribe.bind_bind]

def Visit.Opening (chain : List (Decorator ε α)) (v : Visit ε α) : Prop :=
  v.call = .prepare ∨ v.call ∈ hooks chain .start 0

def Fresh (s : Session ε α) : Prop := s.state.Shows s.state.x 0 0 ""

theorem leads_begin : Scribe.Leads (Narrated.begin p o chain solver) (fun _ => True)
    (Visit.Opening chain) Fresh := by
  have opens : Scribe.Leads (Scribe.tacit (modify (Session.advance opened)) : Narrated.Tale ε α Unit)
      (fun _ => True) (Visit.Opening chain) Fresh :=
    .tacit fun s _ t _ h => by cases h; exact ⟨rfl, rfl, rfl, rfl⟩
  have prepares : Scribe.Leads (Narrated.visit p o solver .prepare) Fresh (Visit.Opening chain)
      Fresh := by
    refine .entering (fun _ _ => .inl rfl) fun s b t hs h => ?_
    rw [Fresh, (perform_prepare h).2]
    exact ⟨rfl, hs.iteration, hs.lastChange, hs.stopReason⟩
  have starts : Scribe.Leads (Narrated.visitEach p o solver (hooks chain .start 0)) Fresh
      (Visit.Opening chain) Fresh := by
    refine leads_visitEach fun c hc => .entering (fun _ _ => .inr hc) fun s b t hs h => ?_
    obtain ⟨d, rfl⟩ := mem_hooks hc
    rw [Fresh, (perform_hook h).2.1]
    exact hs
  refine .bind (.tacit (J := fun _ => True) fun _ _ _ h _ => h) fun _ => ?_
  refine .bind opens fun _ => .bind prepares fun _ => .bind starts fun _ => ?_
  exact .tacit fun s _ t hs h => by cases h; exact hs

omit [Scalar α] in
theorem Visit.Opening.stepNumber (h : v.Opening chain) : v.call.stepNumber? = none := by
  rcases h with hk | hk
  · rw [hk]
    rfl
  · exact stepNumber_of_mem_hooks hk

omit [Scalar α] in
theorem Visit.Opening.not_judge (h : v.Opening chain) (k : Nat) : v.call ≠ .judge k := by
  intro hk
  rcases h with hcall | hcall
  · cases hcall.symm.trans hk
  · obtain ⟨d, hd⟩ := mem_hooks hcall
    cases hd.symm.trans hk

theorem onward_of_stops {done : Nat} {stop : Bool}
    (hv : v ∈ (Narrated.onward p o chain solver fuel done stop s).1) (hstops : v.StopsAfter n) :
    ∃ t, (Narrated.onward p o chain solver fuel done stop s).2 = .ok n t := by
  induction fuel, done, stop using Narrated.onward.induct generalizing s with
  | case1 fuel done =>
    rw [Narrated.onward] at hv
    exact absurd hv List.not_mem_nil
  | case2 done => exact absurd hv List.not_mem_nil
  | case3 fuel done ih =>
    rw [Narrated.onward] at hv ⊢
    rcases Scribe.mem_bind_iff.mp hv with hpass | ⟨_, m, hpass, hv⟩
    · exact absurd hstops.1 (((silent_pass (done + 1)) s trivial).1 v hpass n)
    rw [Scribe.bind_of_ok (Prod.ext rfl hpass)]
    rcases Scribe.mem_bind_iff.mp hv with hjudge | ⟨b, w, hjudge, hrest⟩
    · obtain ⟨hk, w, hout⟩ := hstops
      rw [List.mem_singleton.mp hjudge] at hk hout
      cases hk
      have hvisit : (Narrated.visit p o solver (.judge (done + 1)) m).2 = .ok true w := hout
      rw [Scribe.bind_of_ok (Prod.ext rfl hvisit), Narrated.onward]
      exact ⟨w, rfl⟩
    · obtain ⟨t, ht⟩ := ih b hrest
      rw [Scribe.bind_of_ok (Prod.ext rfl hjudge)]
      exact ⟨t, ht⟩

theorem parts_of_stops (hv : v ∈ history fuel p o chain solver s) (hstops : v.StopsAfter n) :
    ∃ t stop w r, (Narrated.begin p o chain solver s).2 = .ok () t ∧
      (Narrated.onward p o chain solver fuel 0 stop w).2 = .ok n r ∧ w.state = t.state ∧
      Narrated.solve p o chain solver fuel s = ((Narrated.begin p o chain solver s).1 ++
        ⟨.judge 0, t, .ok stop w⟩ :: ((Narrated.onward p o chain solver fuel 0 stop w).1 ++
          (Narrated.finish p o chain solver n r).1), (Narrated.finish p o chain solver n r).2) := by
  have hbefore : v ∉ (Narrated.begin p o chain solver s).1 := fun hmem =>
    ((leads_begin s trivial).1 v hmem).not_judge n hstops.1
  rw [history, solve_eq_begin] at hv
  obtain ⟨_, t, hbegin, hv⟩ := (Scribe.mem_bind_iff.mp hv).resolve_left hbefore
  -- the criterion held at the first call or in one of the iterations
  obtain ⟨stop, w, r, hjudge, honward⟩ : ∃ stop w r,
      (Call.judge 0).perform p o solver t = .ok stop w ∧
      (Narrated.onward p o chain solver fuel 0 stop w).2 = .ok n r := by
    rcases Scribe.mem_bind_iff.mp hv with hmem | ⟨stop, w, hjudge, hv⟩
    · obtain ⟨hk, w, hout⟩ := hstops
      rw [List.mem_singleton.mp hmem] at hk hout
      cases hk
      refine ⟨true, w, w, hout, ?_⟩
      rw [Narrated.onward]
      rfl
    · rcases Scribe.mem_bind_iff.mp hv with hmem | ⟨m, r, -, hmem⟩
      · obtain ⟨r, hr⟩ := onward_of_stops hmem hstops
        exact ⟨stop, w, r, hjudge, hr⟩
      · exact absurd hstops.1 (((silent_finish m) r trivial).1 v hmem n)
  refine ⟨t, stop, w, r, hbegin, honward, perform_judge hjudge, ?_⟩
  rw [solve_eq_begin, Scribe.bind_of_ok (Prod.ext rfl hbegin), Narrated.proceed,
    Scribe.bind_of_ok (visit_eq_ok_iff.mpr ⟨hjudge, rfl⟩), Scribe.bind_of_ok (Prod.ext rfl honward)]
  rfl

theorem visitEach_error {cs : List (Call ε α)} {e : Fault α}
    (h : Narrated.visitEach p o solver cs s = (vs, .error e t)) :
    ∃ v ∈ vs, v.call ∈ cs ∧ v.outcome = .error e t := by
  induction cs generalizing s vs with
  | nil => cases (Prod.mk.inj h).2
  | cons c cs ih =>
    rcases Scribe.bind_eq_error_iff.mp h with hc | ⟨_, u, fs, gs, -, hcs, rfl⟩
    · obtain ⟨rfl, hout⟩ := Prod.mk.inj hc
      exact ⟨_, List.mem_singleton_self _, List.mem_cons_self, hout⟩
    · obtain ⟨v, hv, hcall, hout⟩ := ih hcs
      exact ⟨v, List.mem_append_right fs hv, List.mem_cons_of_mem c hcall, hout⟩

variable (p o chain solver) in
theorem finish_returns {x : Point α} {c : α} (hs : s.state.Shows x n c "") :
    (∃ t, (Narrated.finish p o chain solver n s).2 = .ok () t ∧
      t.state.iteration = .whole (Int.ofNat n)) ∨
    ∃ v ∈ (Narrated.finish p o chain solver n s).1, v.call ∈ hooks chain .stop n ∧
      ∃ e t, v.outcome = .error e t := by
  rcases h : Narrated.finish p o chain solver n s with ⟨vs, ⟨_, t⟩ | ⟨e, t⟩⟩
  · exact .inl ⟨t, rfl, (finish_ok hs h).2.1.iteration⟩
  · rcases Scribe.tacit_bind_eq_error_iff.mp h with ⟨hclose, -⟩ | ⟨_, u, -, hhooks⟩
    · cases hclose
    · obtain ⟨v, hv, hcall, hout⟩ := visitEach_error hhooks
      exact .inr ⟨v, hv, hcall, e, t, hout⟩

theorem stepless_visitEach (phase : Phase) (k : Nat) :
    Scribe.Leads (Narrated.visitEach p o solver (hooks chain phase k)) (fun _ => True)
      (fun v => v.call.stepNumber? = none) fun _ => True :=
  leads_visitEach fun _ hc =>
    .entering (fun _ _ => stepNumber_of_mem_hooks hc) fun _ _ _ _ _ => trivial

variable (p o chain solver n s) in
theorem stepNumber_of_mem_finish :
    ∀ v ∈ (Narrated.finish p o chain solver n s).1, v.call.stepNumber? = none := by
  have hclose : Scribe.Leads (Scribe.tacit (Narrated.close o solver n) : Narrated.Tale ε α Unit)
      (fun _ => True) (fun v => v.call.stepNumber? = none) fun _ => True :=
    .tacit fun _ _ _ _ _ => trivial
  exact ((hclose.bind fun _ => stepless_visitEach .stop n) s trivial).1

omit [Scalar α] in
theorem stepNumbers_eq_nil (h : ∀ v ∈ vs, v.call.stepNumber? = none) :
    (vs.map Visit.call).filterMap Call.stepNumber? = [] := by
  refine List.filterMap_eq_nil_iff.mpr fun c hc => ?_
  obtain ⟨v, hv, rfl⟩ := List.mem_map.mp hc
  exact h v hv

def Visit.Counted (v : Visit ε α) : Prop := ∀ k, v.call = .step k → 0 < k

theorem counted_visitEach (phase : Phase) (k : Nat) :
    Scribe.Leads (Narrated.visitEach p o solver (hooks chain phase k)) (fun _ => True)
      Visit.Counted fun _ => True :=
  (stepless_visitEach phase k).forget (fun _ _ => trivial) fun v hv j hj => by
    rw [hj] at hv
    cases hv

theorem counted_pass (k : Nat) : Scribe.Leads (Narrated.pass p o chain solver (k + 1))
    (fun _ => True) Visit.Counted fun _ => True := by
  refine .bind (.tacit fun _ _ _ h _ => h) fun before => ?_
  refine .bind (.entering (fun s _ j hj => ?_) fun _ _ _ h _ => h) fun _ => ?_
  · cases hj
    exact Nat.succ_pos k
  refine .bind (.tacit fun _ _ _ h _ => h) fun _ => ?_
  exact .bind (counted_visitEach .iteration (k + 1)) fun _ => .tacit fun _ _ _ h _ => h

theorem counted_onward (fuel done : Nat) (stop : Bool) :
    Scribe.Leads (Narrated.onward p o chain solver fuel done stop) (fun _ => True) Visit.Counted
      fun _ => True := by
  induction fuel, done, stop using Narrated.onward.induct with
  | case1 fuel done =>
    rw [Narrated.onward]
    exact .pure done
  | case2 done => exact .tacit fun _ _ _ h _ => h
  | case3 fuel done ih =>
    refine .bind (counted_pass done) fun _ => ?_
    refine .bind (.entering (fun s _ j hj => ?_) fun _ _ _ h _ => h) fun stop => ih stop
    cases hj

theorem step_pos {k : Nat} (hv : v ∈ history fuel p o chain solver s) (hk : v.call = .step k) :
    0 < k := by
  have counted : Scribe.Leads (Narrated.solve p o chain solver fuel) (fun _ => True) Visit.Counted
      fun _ => True := by
    rw [solve_eq_begin]
    refine .bind (leads_begin.forget (fun _ h => h) fun v hopening j hj => ?_) fun _ => ?_
    · have hnone := hopening.stepNumber
      rw [hj] at hnone
      cases hnone
    refine .bind (.entering (fun s _ j hj => ?_) fun _ _ _ h _ => h) fun stop => ?_
    · cases hj
    refine .bind (counted_onward fuel 0 stop) fun n => ?_
    exact .bind (.tacit fun _ _ _ h _ => h) fun _ => counted_visitEach .stop n
  exact (counted s trivial).1 v hv k hk

/-- Unless the criterion holds when it is first asked, the run goes on to a step. -/
theorem first_step_mem {u w : Session ε α} (hbegin : begin p o chain solver s = .ok () u)
    (hjudge : (Call.judge 0).perform p o solver u = .ok false w) :
    ⟨.step 1, w, (Call.step 1).perform p o solver w⟩ ∈
      history (fuel + 1) p o chain solver s := by
  rw [← outcome_begin] at hbegin
  rw [history, solve_eq_begin]
  refine Scribe.mem_bind_iff.mpr (.inr ⟨(), u, hbegin, ?_⟩)
  refine Scribe.mem_bind_iff.mpr (.inr ⟨false, w, hjudge, ?_⟩)
  refine Scribe.mem_bind_iff.mpr (.inl ?_)
  rw [Narrated.onward]
  refine Scribe.mem_bind_iff.mpr (.inl ?_)
  rw [Narrated.pass, Scribe.tacit_get_bind]
  exact Scribe.mem_bind_iff.mpr (.inl List.mem_cons_self)

end Runs

/-- A run of `n` iterations: the criterion held after them and was asked after each of them, the
steps are `1, ..., n`, and the run returns unless a hook of the end fails. -/
structure Lasts (fuel : Nat) (p : Problem ε α) (o : Options ε α) (chain : List (Decorator ε α))
    (solver : Solver ε α) (s : Session ε α) (n : Nat) : Prop where
  stops : ∃ v ∈ history fuel p o chain solver s, v.StopsAfter n
  steps : ((history fuel p o chain solver s).map Visit.call).filterMap Call.stepNumber? =
    List.range' 1 n
  judged : ∀ k ≤ n, ∃ v ∈ history fuel p o chain solver s, v.call = .judge k
  returns : (∃ t, solve fuel p o chain solver s = .ok () t ∧
      t.state.iteration = .whole (Int.ofNat n)) ∨
    ∃ v ∈ history fuel p o chain solver s, v.call ∈ hooks chain .stop n ∧
      ∃ e t, v.outcome = .error e t

theorem lasts_of_stops {p : Problem ε α} {o : Options ε α} {chain : List (Decorator ε α)}
    {solver : Solver ε α} {s : Session ε α} {fuel n : Nat}
    (h : ∃ v ∈ history fuel p o chain solver s, v.StopsAfter n) :
    Lasts fuel p o chain solver s n := by
  obtain ⟨v, hv, hstops⟩ := h
  obtain ⟨t, stop, w, r, hbegin, honward, hstate, hsolve⟩ := parts_of_stops hv hstops
  have hfresh : Fresh t := (leads_begin s trivial).2 () t hbegin
  have hshows : w.state.Shows t.state.x 0 0 "" := by
    rw [hstate]
    exact hfresh
  obtain ⟨-, -, x, change, -, -, rest⟩ := onward_ok hshows (Prod.ext rfl honward)
  have hopening : ((Narrated.begin p o chain solver s).1.map Visit.call).filterMap
      Call.stepNumber? = [] :=
    stepNumbers_eq_nil fun u hu => ((leads_begin s trivial).1 u hu).stepNumber
  have hclosing := stepNumbers_eq_nil (stepNumber_of_mem_finish p o chain solver r n)
  have hhistory : history fuel p o chain solver s = _ := congrArg Prod.fst hsolve
  refine ⟨⟨v, hv, hstops⟩, ?_, fun k hk => ?_, ?_⟩
  -- only the iterations have steps, neither what comes before nor what comes after
  · rw [hhistory, List.map_append, List.filterMap_append, hopening, List.nil_append, List.map_cons,
      List.filterMap_cons_none rfl, List.map_append, List.filterMap_append, hclosing,
      List.append_nil, rest.calls, stepNumbers_rounds]
  · rw [hhistory]
    rcases Nat.eq_zero_or_pos k with rfl | hpos
    · exact ⟨_, List.mem_append_right _ List.mem_cons_self, rfl⟩
    · have hmem := judge_mem_rounds chain hpos hk
      rw [← rest.calls] at hmem
      obtain ⟨u, hu, hcall⟩ := List.mem_map.mp hmem
      exact ⟨u, List.mem_append_right _ (List.mem_cons_of_mem _ (List.mem_append_left _ hu)), hcall⟩
  · rcases finish_returns p o chain solver rest.closing with
      ⟨u, hu, hiteration⟩ | ⟨u, hu, hfailed⟩
    · refine .inl ⟨u, ?_, hiteration⟩
      rw [← outcome_solve]
      exact (congrArg Prod.snd hsolve).trans hu
    · refine .inr ⟨u, ?_, hfailed⟩
      rw [hhistory]
      exact List.mem_append_right _ (List.mem_cons_of_mem _ (List.mem_append_right _ hu))

end Geodescent.Solver
