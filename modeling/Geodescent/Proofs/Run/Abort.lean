import Geodescent.Proofs.Run.Ending

/-! Runs that a failed step cuts off. The failed call is the last of the run and the run fails as the
call did; before it come the calls of the finished iterations, with the books as these have left them:
`solve_of_failed`. Nothing of a stop is ever seen: `solve_of_failed_step`. -/
namespace Geodescent.Solver
variable {ε α : Type} [Scalar α] {p : Problem ε α} {o : Options ε α} {chain : List (Decorator ε α)}
  {solver : Solver ε α} {s t : Session ε α} {v : Visit ε α} {e : Fault α} {k : Nat}

def Visit.after (v : Visit ε α) : Session ε α := left v.outcome

theorem position_perform_step :
    (left ((Call.step k).perform p o solver s)).state.position =
      (left (solver.step s.settings p o k ((Session.stepping ε α).get s))).position := by
  have h := left_run_pure (Session.stepping ε α) (solver.step s.settings p o (Int.ofNat k)) false s
  exact congrArg (fun u : Session ε α => u.state.position) h

/-- The call of step `k`, which failed with `e` and left `t`. -/
structure Visit.Failed (v : Visit ε α) (k : Nat) (e : Fault α) (t : Session ε α) : Prop where
  call : v.call = .step k
  outcome : v.outcome = .error e t

omit [Scalar α] in
theorem Visit.Failed.stepNumber (h : v.Failed k e t) : v.call.stepNumber? ≠ none := by
  rw [h.call]
  exact nofun

/-- The iterations after the first `done` ones up to the `n`-th, which go on to the call `v`. -/
structure Severed (p : Problem ε α) (o : Options ε α) (chain : List (Decorator ε α))
    (x : Nat → Point α) (change : Nat → α) (done : Nat) (s : Session ε α) (vs : List (Visit ε α))
    (n : Nat) (v : Visit ε α) : Prop where
  le : done ≤ n
  calls : vs.map Visit.call = rounds chain done n
  linked : Linked s vs v.before
  lawful : ∀ u ∈ vs, u.Lawful o x change (n + 1)
  dist : ∀ k, done ≤ k → k < n → p.manifold.dist (x k) (x (k + 1)) = .ok (change (k + 1))
  closing : v.before.state.Shows (x n) n (change n) ""

theorem pass_of_failed {j : Nat} (hv : v ∈ (Narrated.pass p o chain solver j s).1)
    (h : v.Failed k e t) :
    k = j ∧ v.before = s ∧ Narrated.pass p o chain solver j s = ([v], .error e t) := by
  unfold Narrated.pass at hv ⊢
  rw [Scribe.tacit_get_bind] at hv ⊢
  rcases Scribe.mem_bind_iff.mp hv with hstep | ⟨_, u, -, hv⟩
  · have hvisit := List.mem_singleton.mp hstep
    have hk := h.call
    have hfails := h.outcome
    rw [hvisit] at hk hfails
    cases hk
    have hlist : Narrated.visit p o solver (.step k) s = ([v], .error e t) := by
      rw [hvisit]
      exact Prod.ext rfl hfails
    refine ⟨rfl, ?_, Scribe.bind_of_error hlist⟩
    rw [hvisit]
  · rcases Scribe.mem_bind_iff.mp hv with hmeasure | ⟨_, u, -, hv⟩
    · exact absurd hmeasure List.not_mem_nil
    rcases Scribe.mem_bind_iff.mp hv with hhooks | ⟨_, u, -, hnote⟩
    · exact absurd ((stepless_visitEach .iteration j u trivial).1 v hhooks) h.stepNumber
    · exact absurd hnote List.not_mem_nil

theorem onward_of_failed {fuel done : Nat} {stop : Bool} {x₀ : Point α} {c₀ : α}
    (hs : s.state.Shows x₀ done c₀ "")
    (hv : v ∈ (Narrated.onward p o chain solver fuel done stop s).1) (h : v.Failed k e t) :
    ∃ n x change vs, k = n + 1 ∧ stop = false ∧ x done = x₀ ∧ change done = c₀ ∧
      Narrated.onward p o chain solver fuel done stop s = (vs ++ [v], .error e t) ∧
      Severed p o chain x change done s vs n v := by
  induction fuel, done, stop using Narrated.onward.induct generalizing s x₀ c₀ with
  | case1 fuel done =>
    rw [Narrated.onward] at hv
    exact absurd hv List.not_mem_nil
  | case2 done => exact absurd hv List.not_mem_nil
  | case3 fuel done ih =>
    rw [Narrated.onward] at hv ⊢
    rcases Scribe.mem_bind_iff.mp hv with hmem | ⟨_, m, hpass, hv⟩
    -- the failed step is the one of this iteration
    · obtain ⟨rfl, rfl, hpass⟩ := pass_of_failed hmem h
      refine ⟨done, fun _ => x₀, fun _ => c₀, [], rfl, rfl, rfl, rfl,
        Scribe.bind_of_error hpass, ?_⟩
      exact ⟨Nat.le_refl done, (rounds_self chain done).symm, .nil (.refl _),
        fun _ hu => absurd hu List.not_mem_nil, fun _ hk hn => absurd hn (Nat.not_lt.mpr hk), hs⟩
    have hp : Narrated.pass p o chain solver (done + 1) s = (_, .ok () m) := Prod.ext rfl hpass
    obtain ⟨y, d, u, hooked, hd, hm, hu, hfs, hcalls, hhooked⟩ := pass_ok hs hp
    rcases Scribe.mem_bind_iff.mp hv with hmem | ⟨stop, w, hjudge, hv⟩
    · have hcall := h.call
      rw [List.mem_singleton.mp hmem] at hcall
      cases hcall
    have hanswers : (Call.judge (done + 1)).perform p o solver m = .ok stop w := hjudge
    have hvisit : Narrated.visit p o solver (.judge (done + 1)) m =
        ([⟨.judge (done + 1), m, .ok stop w⟩], .ok stop w) := visit_eq_ok_iff.mpr ⟨hanswers, rfl⟩
    have hw : w.state.Shows y (done + 1) d "" := perform_judge hanswers ▸ hm
    obtain ⟨n, x, change, vs, rfl, rfl, rfl, rfl, honward, rest⟩ := ih stop hw hv
    have hanswer : decide (done + 1 = n + 1) = false :=
      decide_eq_false fun heq => absurd rest.le (by omega)
    have linked : Linked s _ m := links_pass (done + 1) s _ () m hp
    -- the iterates of the later iterations, with the present one in front of them
    refine ⟨n, fun k => if k = done then x₀ else x k, fun k => if k = done then c₀ else change k,
      ⟨.step (done + 1), s, .ok false u⟩ :: (hooked ++
        ⟨.judge (done + 1), m, .ok false w⟩ :: vs), rfl, rfl, if_pos rfl, if_pos rfl, ?_, ?_⟩
    · rw [Scribe.bind_of_ok hp, Scribe.bind_of_ok hvisit, honward, hfs]
      simp only [List.cons_append, List.append_assoc, List.nil_append]
    · have hne : n ≠ done := Nat.ne_of_gt rest.le
      refine ⟨Nat.le_of_succ_le rest.le, map_call_round rest.le hcalls rest.calls, ?_, ?_,
        dist_round hd rest.dist, ?_⟩
      · rw [hfs] at linked
        exact linked.append (.cons (.refl m) rfl rest.linked)
      · have hround := lawful_round (w := w) hs hu hcalls hhooked hm rest.lawful rest.calls
        rw [hanswer] at hround
        exact hround
      · rw [if_neg hne, if_neg hne]
        exact rest.closing

def callsUntil (chain : List (Decorator ε α)) (n : Nat) : List (Call ε α) :=
  .prepare :: (hooks chain .start 0 ++ .judge 0 :: rounds chain 0 n)

/-- A run up to the failed step `v`: the calls `vs` before it, which begin at the session `s` in
which the starting point has been accepted, over the iterates `x`. -/
structure Interrupted (p : Problem ε α) (o : Options ε α) (chain : List (Decorator ε α))
    (x : Nat → Point α) (change : Nat → α) (s : Session ε α) (vs : List (Visit ε α)) (n : Nat)
    (v : Visit ε α) : Prop where
  calls : vs.map Visit.call = callsUntil chain n
  linked : Linked s vs v.before
  lawful : ∀ u ∈ vs, u.Lawful o x change (n + 1)
  rest : change 0 = 0
  dist : ∀ k < n, p.manifold.dist (x k) (x (k + 1)) = .ok (change (k + 1))
  closing : v.before.state.Shows (x n) n (change n) ""

section Cut
variable {fuel : Nat}

omit [Scalar α] in
theorem Visit.Failed.not_mem {c : Call ε α} (h : v.Failed k e t) (hc : c.stepNumber? = none)
    {r : EStateM.Result (Fault α) (Session ε α) Bool} : v ∉ [Visit.mk c s r] := by
  intro hv
  have hstep := h.stepNumber
  rw [List.mem_singleton.mp hv] at hstep
  exact hstep hc

theorem course_of_failed (hs : s.state.Shows s.state.x 0 0 "")
    (hv : v ∈ (Narrated.course p o chain solver fuel s).1) (h : v.Failed k e t) :
    ∃ n x change vs, k = n + 1 ∧ x 0 = s.state.x ∧ change 0 = 0 ∧
      Narrated.course p o chain solver fuel s = (vs ++ [v], .error e t) ∧
      vs.map Visit.call = hooks chain .start 0 ++ .judge 0 :: rounds chain 0 n ∧
      Linked s vs v.before ∧ (∀ u ∈ vs, u.Lawful o x change (n + 1)) ∧
      (∀ k < n, p.manifold.dist (x k) (x (k + 1)) = .ok (change (k + 1))) ∧
      v.before.state.Shows (x n) n (change n) "" := by
  unfold Narrated.course at hv ⊢
  -- neither a hook nor a call of the criterion is a step, so the failed one is among the iterations
  rcases Scribe.mem_bind_iff.mp hv with hmem | ⟨_, u, hstarts, hv⟩
  · exact absurd ((stepless_visitEach .start 0 s trivial).1 v hmem) h.stepNumber
  obtain ⟨starts, hstart⟩ : ∃ starts,
      Narrated.visitEach p o solver (hooks chain .start 0) s = (starts, .ok () u) :=
    ⟨_, Prod.ext rfl hstarts⟩
  obtain ⟨hcalls, hstate, -, hbefore⟩ := visitEach_hooks hstart
  have hnote : (modify (Session.note (openingEntry p o solver)) : Run ε α Unit) u =
      .ok () (u.note (openingEntry p o solver)) := rfl
  rw [Scribe.bind_of_ok hstart]
  rw [Scribe.tacit_bind_of_ok hnote] at hv ⊢
  rcases Scribe.mem_bind_iff.mp hv with hmem | ⟨stop, z, hjudge, hv⟩
  · exact absurd hmem (h.not_mem rfl)
  have hanswers : (Call.judge 0).perform p o solver (u.note (openingEntry p o solver)) =
      .ok stop z := hjudge
  rw [Scribe.bind_of_ok (visit_eq_ok_iff.mpr ⟨hanswers, rfl⟩)]
  have hu : u.state.Shows s.state.x 0 0 "" := hstate ▸ hs
  have hz : z.state.Shows s.state.x 0 0 "" := by
    rw [perform_judge hanswers]
    exact hu
  rcases Scribe.mem_bind_iff.mp hv with hmem | ⟨n, r, -, hmem⟩
  · obtain ⟨n, x, change, vs, rfl, rfl, hx, hchange, honward, rest⟩ := onward_of_failed hz hmem h
    refine ⟨n, x, change, starts ++ ⟨.judge 0, u.note (openingEntry p o solver), .ok false z⟩ :: vs,
      rfl, hx, hchange, ?_, ?_, ?_, fun v hv => ?_, fun k hk => rest.dist k (Nat.zero_le k) hk,
      rest.closing⟩
    · rw [Scribe.bind_of_error honward]
      simp only [List.cons_append, List.append_assoc, List.nil_append]
    · rw [List.map_append, hcalls, List.map_cons, rest.calls]
    · have hfirst : Linked s starts u := links_visitEach _ s starts () u hstart
      exact hfirst.append (.cons (agrees_note _ u) rfl rest.linked)
    · rcases List.mem_append.mp hv with hv | hv
      · refine .of_hook rfl (hcalls ▸ List.mem_map_of_mem hv) ?_
        rw [(hbefore v hv).1, hx, hchange]
        exact hs
      rcases List.mem_cons.mp hv with rfl | hv
      · refine .of_judge (n := n + 1) ?_
        rw [hx, hchange]
        exact hu
      · exact rest.lawful v hv
  · exact absurd (stepNumber_of_mem_finish p o chain solver r n v hmem) h.stepNumber

theorem solve_of_failed (hv : v ∈ history fuel p o chain solver s) (h : v.Failed k e t) :
    ∃ s₁ n x change vs, validate p s = .ok () s₁ ∧ k = n + 1 ∧
      Narrated.solve p o chain solver fuel s = (vs ++ [v], .error e t) ∧
      Interrupted p o chain x change s₁ vs n v := by
  unfold history at hv
  unfold Narrated.solve at hv ⊢
  rcases Scribe.mem_bind_iff.mp hv with hmem | ⟨_, s₁, hvalid, hv⟩
  · exact absurd hmem List.not_mem_nil
  have hvalid : validate p s = .ok () s₁ := hvalid
  have hopened : (modify (Session.advance opened) : Run ε α Unit) s₁ =
      .ok () (s₁.advance opened) := rfl
  rw [Scribe.tacit_bind_of_ok hvalid, Scribe.tacit_bind_of_ok hopened]
  rw [Scribe.tacit_bind_of_ok hopened] at hv
  rcases Scribe.mem_bind_iff.mp hv with hmem | ⟨b, w, hprepare, hv⟩
  · exact absurd hmem (h.not_mem rfl)
  have hprepared : Call.prepare.perform p o solver (s₁.advance opened) = .ok b w := hprepare
  obtain ⟨rfl, -⟩ := perform_prepare hprepared
  have hshows : w.state.Shows w.state.x 0 0 "" := shows_prepare hprepared
  obtain ⟨n, x, change, vs, hk, hx, hchange, hcourse, hcalls, hlinked, hlawful, hdist, hclosing⟩ :=
    course_of_failed hshows hv h
  refine ⟨s₁, n, x, change, ⟨.prepare, s₁.advance opened, .ok false w⟩ :: vs, hvalid, hk, ?_, ?_,
    ?_, fun v hv => ?_, hchange, hdist, hclosing⟩
  · rw [Scribe.bind_of_ok (visit_eq_ok_iff.mpr ⟨hprepared, rfl⟩), hcourse]
    rfl
  · rw [List.map_cons, hcalls]
    rfl
  · exact .cons (agrees_opened s₁) rfl hlinked
  · rcases List.mem_cons.mp hv with rfl | hv
    · exact .of_prepare hx.symm hchange
    · exact hlawful v hv

end Cut

section Early
variable {x : Nat → Point α} {change : Nat → α} {n : Nat}

def Running (s : Session ε α) : Prop := s.state.stopReason = .text ""

/-- A call that is made while nothing of a stop is to be seen. -/
structure Visit.Early (v : Visit ε α) : Prop where
  call : ∀ n d, v.call ≠ .hook .stop n d
  running : Running v.before

omit [Scalar α] in
theorem Visit.reason_of_no_stop (hv : ∀ n d, v.call ≠ .hook .stop n d) : v.reason o = "" := by
  unfold Visit.reason
  split
  · rename_i n d hcall
    exact absurd hcall (hv n d)
  · rfl

omit [Scalar α] in
theorem Visit.Lawful.early (h : v.Lawful o x change n) (hv : ∀ n d, v.call ≠ .hook .stop n d) :
    v.Early := by
  refine ⟨hv, ?_⟩
  by_cases hprepare : v.call = .prepare
  · exact (h.begins hprepare).1.stopReason
  · have hshows := h.shows hprepare
    rw [Visit.reason_of_no_stop hv] at hshows
    exact hshows.stopReason

omit [Scalar α] in
theorem stop_notin_callsUntil (m : Nat) (d : Decorator ε α) :
    .hook .stop m d ∉ callsUntil chain n := by
  intro h
  rcases List.mem_cons.mp h with hcall | h
  · cases hcall
  rcases List.mem_append.mp h with h | h
  · obtain ⟨_, hcall⟩ := mem_hooks h
    cases hcall
  rcases List.mem_cons.mp h with hcall | h
  · cases hcall
  obtain ⟨k, -, h⟩ := List.mem_flatMap.mp h
  rcases List.mem_cons.mp h with hcall | h
  · cases hcall
  rcases List.mem_append.mp h with h | h
  · obtain ⟨_, hcall⟩ := mem_hooks h
    cases hcall
  · cases List.mem_singleton.mp h

theorem after_of_failed (h : v.Failed k e t)
    (performed : v.outcome = v.call.perform p o solver v.before) :
    ∃ u, t = (Session.stepping ε α).set u v.before := by
  have hleft := left_run_pure (Session.stepping ε α)
    (solver.step v.before.settings p o (Int.ofNat k)) false v.before
  have hperform : (Call.step k).perform p o solver v.before = .error e t := by
    rw [← h.call, ← performed, h.outcome]
  have hrun : left ((Call.step k).perform p o solver v.before) = _ := hleft
  rw [hperform] at hrun
  exact ⟨_, hrun⟩

/-- A run in which a step fails ends there, as the step did. No observer has been told of a stop, and
no reason for one is noted. -/
theorem solve_of_failed_step {fuel k : Nat} (hv : v ∈ history fuel p o chain solver s)
    (hk : v.call = .step k) (he : v.outcome = .error e t) :
    solve fuel p o chain solver s = .error e t ∧
      (∃ pre, history fuel p o chain solver s = pre ++ [v]) ∧
      (∀ u ∈ history fuel p o chain solver s, u.Early) ∧ Running t := by
  have hfailed : v.Failed k e t := ⟨hk, he⟩
  obtain ⟨s₁, n, x, change, vs, -, rfl, hsolve, interrupted⟩ := solve_of_failed hv hfailed
  have hhistory : history fuel p o chain solver s = vs ++ [v] := congrArg Prod.fst hsolve
  have hearly : ∀ u ∈ vs, u.Early := by
    intro u hu
    refine (interrupted.lawful u hu).early fun m d hcall => ?_
    have hmem : u.call ∈ callsUntil chain n := interrupted.calls ▸ List.mem_map_of_mem hu
    exact stop_notin_callsUntil m d (hcall ▸ hmem)
  have hlast : v.Early := ⟨by rw [hk]; exact nofun, interrupted.closing.stopReason⟩
  obtain ⟨u, hu⟩ := after_of_failed hfailed (outcome_of_mem_history hv)
  refine ⟨?_, ⟨vs, hhistory⟩, ?_, ?_⟩
  · rw [← outcome_solve, Scribe.outcome, hsolve]
  · rw [hhistory]
    exact List.forall_mem_append.mpr ⟨hearly, List.forall_mem_singleton.mpr hlast⟩
  · rw [hu]
    exact hlast.running

end Early

end Geodescent.Solver
