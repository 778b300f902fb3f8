import Geodescent.Proofs.Run.Invariant

/-! What a part of a run does when it returns: the calls it makes, what the options show in each of
them, and what they show at the end. -/
namespace Geodescent

/-- What the options show: the iterate, the number of iterations done, the last change and the
reason for the stop. -/
structure State.Shows {α : Type} (s : State α) (x : Point α) (k : Nat) (change : α)
    (reason : String) : Prop where
  x : s.x = x
  iteration : s.iteration = .whole (Int.ofNat k)
  lastChange : s.lastChange = .real change
  stopReason : s.stopReason = .text reason

namespace Solver
variable {ε α : Type} [Scalar α]

def Call.done : Call ε α → Nat
  | .prepare => 0
  | .hook _ k _ => k
  | .judge k => k
  | .step k => k - 1

def rounds (chain : List (Decorator ε α)) (done n : Nat) : List (Call ε α) :=
  (List.range' (done + 1) (n - done)).flatMap fun k =>
    .step k :: (hooks chain .iteration k ++ [.judge k])

def calls (chain : List (Decorator ε α)) (n : Nat) : List (Call ε α) :=
  .prepare :: (hooks chain .start 0 ++ .judge 0 :: (rounds chain 0 n ++ hooks chain .stop n))

omit [Scalar α] in
theorem rounds_self (chain : List (Decorator ε α)) (n : Nat) : rounds chain n n = [] := by
  rw [rounds, Nat.sub_self, List.range'_zero, List.flatMap_nil]

omit [Scalar α] in
theorem rounds_of_lt (chain : List (Decorator ε α)) {done n : Nat} (h : done < n) :
    rounds chain done n = .step (done + 1) ::
      (hooks chain .iteration (done + 1) ++ .judge (done + 1) :: rounds chain (done + 1) n) := by
  have hn : n - done = n - (done + 1) + 1 := by omega
  rw [rounds, hn, List.range'_succ, List.flatMap_cons, ← rounds]
  simp only [List.cons_append, List.append_assoc, List.nil_append]

omit [Scalar α] in
theorem done_of_mem_rounds {chain : List (Decorator ε α)} {done n : Nat} {c : Call ε α}
    (h : c ∈ rounds chain done n) : done ≤ c.done ∧ ∀ k, c = .step k → done < k := by
  obtain ⟨k, hk, hc⟩ := List.mem_flatMap.mp h
  have hk : done + 1 ≤ k := (List.mem_range'_1.mp hk).1
  rcases List.mem_cons.mp hc with rfl | hc
  · exact ⟨by simp only [Call.done]; omega, fun j hj => by cases hj; omega⟩
  rcases List.mem_append.mp hc with hc | hc
  · obtain ⟨d, rfl⟩ := mem_hooks hc
    exact ⟨by simp only [Call.done]; omega, fun j hj => by cases hj⟩
  · rw [List.mem_singleton.mp hc]
    exact ⟨by simp only [Call.done]; omega, fun j hj => by cases hj⟩

omit [Scalar α] in
theorem judge_mem_rounds (chain : List (Decorator ε α)) {k n : Nat} (hk : 0 < k) (h : k ≤ n) :
    .judge k ∈ rounds chain 0 n := by
  refine List.mem_flatMap.mpr ⟨k, List.mem_range'_1.mpr (by omega), ?_⟩
  exact List.mem_cons_of_mem _ (List.mem_append_right _ (List.mem_singleton_self _))

def Call.stepNumber? : Call ε α → Option Nat
  | .step k => some k
  | _ => none

omit [Scalar α] in
theorem stepNumber_of_mem_hooks {chain : List (Decorator ε α)} {phase : Phase} {k : Nat}
    {c : Call ε α} (h : c ∈ hooks chain phase k) : c.stepNumber? = none := by
  obtain ⟨d, rfl⟩ := mem_hooks h
  rfl

omit [Scalar α] in
theorem stepNumbers_hooks (chain : List (Decorator ε α)) (phase : Phase) (k : Nat) :
    (hooks chain phase k).filterMap Call.stepNumber? = [] :=
  List.filterMap_eq_nil_iff.mpr fun _ => stepNumber_of_mem_hooks

omit [Scalar α] in
theorem stepNumbers_rounds (chain : List (Decorator ε α)) (n : Nat) :
    (rounds chain 0 n).filterMap Call.stepNumber? = List.range' 1 n := by
  have hround (k : Nat) : (Call.step k :: (hooks chain .iteration k ++ [.judge k])).filterMap
      Call.stepNumber? = [k] := by
    have hhooks : (hooks chain .iteration k ++ [Call.judge k]).filterMap
        Call.stepNumber? = [] := by
      rw [List.filterMap_append, stepNumbers_hooks]
      rfl
    exact congrArg (k :: ·) hhooks
  unfold rounds
  rw [List.filterMap_flatMap]
  simp only [hround, List.flatMap_singleton', Nat.zero_add, Nat.sub_zero]

section Performed
variable {p : Problem ε α} {o : Options ε α} {solver : Solver ε α} {s t : Session ε α} {b : Bool}
  {k : Nat}

theorem perform_hook {phase : Phase} {d : Decorator ε α}
    (h : (Call.hook phase k d).perform p o solver s = .ok b t) :
    b = false ∧ t.state = s.state ∧ t.nodes = s.nodes := by
  obtain ⟨_, u, hg, h⟩ := sequence_eq_ok_iff.mp h
  cases hg
  obtain ⟨_, u, hr, h⟩ := sequence_eq_ok_iff.mp h
  cases h
  obtain ⟨_, _, rfl⟩ := (Part.run_eq_ok_iff _).mp hr
  exact ⟨rfl, rfl, rfl⟩

theorem perform_judge (h : (Call.judge k).perform p o solver s = .ok b t) :
    t.state = s.state := by
  obtain ⟨_, u, hg, h⟩ := sequence_eq_ok_iff.mp h
  cases hg
  obtain ⟨_, _, rfl⟩ := (Part.run_eq_ok_iff _).mp h
  rfl

theorem perform_prepare (h : Call.prepare.perform p o solver s = .ok b t) :
    b = false ∧ t.state = { s.state with position := t.state.position } := by
  obtain ⟨_, u, hr, h⟩ := sequence_eq_ok_iff.mp h
  cases h
  obtain ⟨_, _, rfl⟩ := (Part.run_eq_ok_iff _).mp hr
  exact ⟨rfl, rfl⟩

theorem shows_prepare (h : Call.prepare.perform p o solver (s.advance opened) = .ok b t) :
    t.state.Shows t.state.x 0 0 "" := by
  rw [(perform_prepare h).2]
  exact ⟨rfl, rfl, rfl, rfl⟩

theorem perform_step (h : (Call.step k).perform p o solver s = .ok b t) :
    b = false ∧ t.state = { s.state with position := t.state.position } := by
  obtain ⟨_, u, hg, h⟩ := sequence_eq_ok_iff.mp h
  cases hg
  obtain ⟨_, u, hr, h⟩ := sequence_eq_ok_iff.mp h
  cases h
  obtain ⟨_, _, rfl⟩ := (Part.run_eq_ok_iff _).mp hr
  exact ⟨rfl, rfl⟩

theorem step_of_perform (h : (Call.step k).perform p o solver s = .ok b t) :
    ∃ u, solver.step s.settings p o k ((Session.stepping ε α).get s) = .ok () u ∧
      t.state.position = u.position := by
  obtain ⟨_, s', hget, h₁⟩ := sequence_eq_ok_iff.mp h
  cases hget
  obtain ⟨_, s', hrun, h₂⟩ := sequence_eq_ok_iff.mp h₁
  cases h₂
  obtain ⟨u, hstep, rfl⟩ := (Part.run_eq_ok_iff _).mp hrun
  exact ⟨u, hstep, rfl⟩

theorem perform_of_prepare {u : Stepping ε α}
    (h : solver.prepare p o ((Session.stepping ε α).get s) = .ok () u) :
    Call.prepare.perform p o solver s = .ok false ((Session.stepping ε α).set u s) :=
  bind_of_ok (Part.run_of_ok (Session.stepping ε α) h)

theorem perform_of_step {u : Stepping ε α}
    (h : solver.step s.settings p o k ((Session.stepping ε α).get s) = .ok () u) :
    (Call.step k).perform p o solver s = .ok false ((Session.stepping ε α).set u s) :=
  bind_of_ok (Part.run_of_ok (Session.stepping ε α) h)

theorem perform_of_step_error {e : Fault α} {u : Stepping ε α}
    (h : solver.step s.settings p o k ((Session.stepping ε α).get s) = .error e u) :
    ∃ t, (Call.step k).perform p o solver s = .error e t := by
  refine ⟨(Session.stepping ε α).set u s, ?_⟩
  change ((Session.stepping ε α).run _ >>= fun _ => pure false) s = _
  exact bind_of_error (Part.run_of_error (Session.stepping ε α) h)

end Performed

section Shape
variable {p : Problem ε α} {o : Options ε α} {chain : List (Decorator ε α)} {solver : Solver ε α}
  {s t : Session ε α} {vs : List (Visit ε α)}

theorem visit_eq_ok_iff {c : Call ε α} {b : Bool} :
    Narrated.visit p o solver c s = (vs, .ok b t) ↔
      c.perform p o solver s = .ok b t ∧ vs = [⟨c, s, .ok b t⟩] := Scribe.entering_eq_ok_iff

theorem visit_bind_eq_ok_iff {β : Type} {c : Call ε α} {f : Bool → Narrated.Tale ε α β} {x : β} :
    (Narrated.visit p o solver c >>= f) s = (vs, .ok x t) ↔
      ∃ b u ws, c.perform p o solver s = .ok b u ∧ f b u = (ws, .ok x t) ∧
        vs = ⟨c, s, .ok b u⟩ :: ws := by
  constructor
  · intro h
    obtain ⟨b, u, _, ws, hv, hf, rfl⟩ := Scribe.bind_eq_ok_iff.mp h
    obtain ⟨hperform, rfl⟩ := visit_eq_ok_iff.mp hv
    exact ⟨b, u, ws, hperform, hf, rfl⟩
  · rintro ⟨b, u, ws, hperform, hf, rfl⟩
    exact Scribe.bind_eq_ok_iff.mpr ⟨b, u, _, ws, visit_eq_ok_iff.mpr ⟨hperform, rfl⟩, hf, rfl⟩

theorem visitEach_hooks {phase : Phase} {k : Nat}
    (h : Narrated.visitEach p o solver (hooks chain phase k) s = (vs, .ok () t)) :
    vs.map Visit.call = hooks chain phase k ∧ t.state = s.state ∧ t.nodes = s.nodes ∧
      ∀ v ∈ vs, v.before.state = s.state ∧ v.before.nodes = s.nodes := by
  induction chain generalizing s vs with
  | nil =>
    rw [hooks, List.map_nil, Narrated.visitEach] at h
    obtain ⟨-, rfl, rfl⟩ := Scribe.pure_eq_ok_iff.mp h
    exact ⟨rfl, rfl, rfl, fun v hv => absurd hv List.not_mem_nil⟩
  | cons d ds ih =>
    rw [hooks, List.map_cons, Narrated.visitEach] at h
    obtain ⟨b, u, gs, hp, hr, rfl⟩ := visit_bind_eq_ok_iff.mp h
    obtain ⟨-, hstate, hnodes⟩ := perform_hook hp
    obtain ⟨hcalls, htstate, htnodes, hbefore⟩ := ih hr
    refine ⟨congrArg (Call.hook phase k d :: ·) hcalls, htstate.trans hstate,
      htnodes.trans hnodes, fun v hv => ?_⟩
    rcases List.mem_cons.mp hv with rfl | hv
    · exact ⟨rfl, rfl⟩
    · exact ⟨(hbefore v hv).1.trans hstate, (hbefore v hv).2.trans hnodes⟩

theorem solve_parts {fuel : Nat}
    (h : Narrated.solve p o chain solver fuel s = (vs, .ok () t)) :
    ∃ s₁ w ws, validate p s = .ok () s₁ ∧
      Call.prepare.perform p o solver (s₁.advance opened) = .ok false w ∧
      Narrated.course p o chain solver fuel w = (ws, .ok () t) ∧
      vs = ⟨.prepare, s₁.advance opened, .ok false w⟩ :: ws := by
  obtain ⟨_, s₁, hvalid, h₁⟩ := Scribe.tacit_bind_eq_ok_iff.mp h
  obtain ⟨_, u, hu, h₂⟩ := Scribe.tacit_bind_eq_ok_iff.mp h₁
  cases hu
  obtain ⟨b, w, ws, hprepare, hcourse, rfl⟩ := visit_bind_eq_ok_iff.mp h₂
  obtain ⟨rfl, -⟩ := perform_prepare hprepare
  exact ⟨s₁, w, ws, hvalid, hprepare, hcourse, rfl⟩

theorem course_parts {fuel : Nat}
    (h : Narrated.course p o chain solver fuel s = (vs, .ok () t)) :
    ∃ u m stop w n r starts ws stops,
      Narrated.visitEach p o solver (hooks chain .start 0) s = (starts, .ok () u) ∧
      m = u.note (openingEntry p o solver) ∧
      (Call.judge 0).perform p o solver m = .ok stop w ∧
      Narrated.onward p o chain solver fuel 0 stop w = (ws, .ok n r) ∧
      Narrated.finish p o chain solver n r = (stops, .ok () t) ∧
      vs = starts ++ ⟨.judge 0, m, .ok stop w⟩ :: (ws ++ stops) := by
  obtain ⟨_, u, starts, _, hstarts, h₁, rfl⟩ := Scribe.bind_eq_ok_iff.mp h
  obtain ⟨_, m, hm, h₂⟩ := Scribe.tacit_bind_eq_ok_iff.mp h₁
  cases hm
  obtain ⟨stop, w, _, hj, h₃, rfl⟩ := visit_bind_eq_ok_iff.mp h₂
  obtain ⟨n, r, ws, stops, honward, hfinish, rfl⟩ := Scribe.bind_eq_ok_iff.mp h₃
  exact ⟨u, _, stop, w, n, r, starts, ws, stops, hstarts, rfl, hj, honward, hfinish, rfl⟩

theorem pass_ok {k : Nat} {x : Point α} {c : α} (hs : s.state.Shows x k c "")
    (h : Narrated.pass p o chain solver (k + 1) s = (vs, .ok () t)) :
    ∃ y d u ws, p.manifold.dist x y = .ok d ∧ t.state.Shows y (k + 1) d "" ∧ u.state.x = y ∧
      vs = ⟨.step (k + 1), s, .ok false u⟩ :: ws ∧
      ws.map Visit.call = hooks chain .iteration (k + 1) ∧
      ∀ w ∈ ws, w.before.state.Shows y (k + 1) d "" := by
  obtain ⟨_, s', hget, h₁⟩ := Scribe.tacit_bind_eq_ok_iff.mp h
  cases hget
  obtain ⟨b, u, _, hstep, h₂, rfl⟩ := visit_bind_eq_ok_iff.mp h₁
  obtain ⟨rfl, hu⟩ := perform_step hstep
  obtain ⟨d, m, hmeasure, h₃⟩ := Scribe.tacit_bind_eq_ok_iff.mp h₂
  obtain ⟨hd, rfl⟩ := measure_eq_ok_iff.mp hmeasure
  obtain ⟨_, w, ws, _, hw, h₄, rfl⟩ := Scribe.bind_eq_ok_iff.mp h₃
  obtain ⟨hn, rfl⟩ := Scribe.tacit_eq_ok_iff.mp h₄
  cases hn
  obtain ⟨hcalls, hstate, -, hbefore⟩ := visitEach_hooks hw
  have hreason : u.state.stopReason = .text "" := by
    rw [hu]
    exact hs.stopReason
  -- the hooks leave the state alone, so that all of them see the books of the new iterate
  have hshows : (u.advance fun state => { state with
      iteration := .whole (Int.ofNat (k + 1)), lastChange := .real d }).state.Shows
      u.state.x (k + 1) d "" := ⟨rfl, rfl, rfl, hreason⟩
  refine ⟨u.state.x, d, u, ws, hs.x ▸ hd, ?_, rfl, by simp, hcalls, fun v hv => ?_⟩
  · rw [← hstate] at hshows
    exact hshows
  · rw [(hbefore v hv).1]
    exact hshows

/-- The reason that the options show in a call: none while the run is on, then the criterion's. -/
def Visit.reason (o : Options ε α) (v : Visit ε α) : String :=
  match v.call with
  | .hook .stop _ _ => (v.before.nodes.get o.criterion.id).reason
  | _ => ""

/-- A call of a run of `n` iterations, when `x k` is the iterate after `k` iterations and `change k`
the length of the last step before it. -/
structure Visit.Lawful (o : Options ε α) (x : Nat → Point α) (change : Nat → α) (n : Nat)
    (v : Visit ε α) : Prop where
  begins : v.call = .prepare → v.before.state.Shows v.before.state.x 0 (change 0) "" ∧
    ∀ b t, v.outcome = .ok b t → t.state.x = x 0
  shows : v.call ≠ .prepare →
    v.before.state.Shows (x v.call.done) v.call.done (change v.call.done) (v.reason o)
  moves : ∀ k b t, v.call = .step k → v.outcome = .ok b t → t.state.x = x k
  answers : ∀ k, v.call = .judge k → ∃ t, v.outcome = .ok (decide (k = n)) t

namespace Visit.Lawful
variable {x : Nat → Point α} {change : Nat → α} {n k : Nat} {v : Visit ε α}

omit [Scalar α] in
theorem of_hook {phase : Phase} {c : Call ε α} (hv : v.call = c) (hc : c ∈ hooks chain phase k)
    (h : v.before.state.Shows (x k) k (change k)
      (if phase = .stop then (v.before.nodes.get o.criterion.id).reason else "")) :
    v.Lawful o x change n := by
  obtain ⟨d, rfl⟩ := mem_hooks hc
  have hr : v.reason o =
      if phase = .stop then (v.before.nodes.get o.criterion.id).reason else "" := by
    rw [Visit.reason, hv]
    cases phase <;> rfl
  refine ⟨fun hc => ?_, fun _ => ?_, fun j b t hc => ?_, fun j hc => ?_⟩
  · rw [hv] at hc
    cases hc
  · rw [hr, hv]
    exact h
  · rw [hv] at hc
    cases hc
  · rw [hv] at hc
    cases hc

theorem of_prepare {b : Bool} (hx : t.state.x = x 0) (hchange : change 0 = 0) :
    Visit.Lawful o x change n ⟨.prepare, s.advance opened, .ok b t⟩ := by
  refine ⟨fun _ => ⟨⟨rfl, rfl, ?_, rfl⟩, ?_⟩, fun h => absurd rfl h, nofun, nofun⟩
  · rw [hchange]
    rfl
  · rintro b t ⟨⟩
    exact hx

omit [Scalar α] in
theorem of_judge (h : s.state.Shows (x k) k (change k) "") :
    Visit.Lawful o x change n ⟨.judge k, s, .ok (decide (k = n)) t⟩ := by
  refine ⟨nofun, fun _ => h, nofun, fun j hj => ?_⟩
  cases hj
  exact ⟨t, rfl⟩

omit [Scalar α] in
theorem of_step (h : s.state.Shows (x k) k (change k) "") (ht : t.state.x = x (k + 1)) :
    Visit.Lawful o x change n ⟨.step (k + 1), s, .ok false t⟩ := by
  refine ⟨nofun, fun _ => h, fun j b u hj hu => ?_, nofun⟩
  cases hj
  cases hu
  exact ht

omit [Scalar α] in
theorem congr {x' : Nat → Point α} {change' : Nat → α} {done : Nat} (h : v.Lawful o x change n)
    (hx : ∀ k, done < k → x' k = x k) (hc : ∀ k, done < k → change' k = change k)
    (hv : done < v.call.done) (hk : ∀ k, v.call = .step k → done < k) :
    v.Lawful o x' change' n where
  begins hp := by
    rw [hp] at hv
    exact absurd hv (Nat.not_lt_zero done)
  shows hp := by
    rw [hx _ hv, hc _ hv]
    exact h.shows hp
  moves k b t hcall hout := by
    rw [hx k (hk k hcall)]
    exact h.moves k b t hcall hout
  answers := h.answers

end Visit.Lawful

section Round
variable {x : Nat → Point α} {change : Nat → α} {done n : Nat} {x₀ : Point α} {c₀ : α}

omit [Scalar α] in
theorem lawful_round {N : Nat} {u m w : Session ε α} {hooked ws : List (Visit ε α)}
    (hs : s.state.Shows x₀ done c₀ "") (hu : u.state.x = x (done + 1))
    (hcalls : hooked.map Visit.call = hooks chain .iteration (done + 1))
    (hhooked : ∀ v ∈ hooked, v.before.state.Shows (x (done + 1)) (done + 1) (change (done + 1)) "")
    (hm : m.state.Shows (x (done + 1)) (done + 1) (change (done + 1)) "")
    (rest : ∀ v ∈ ws, v.Lawful o x change N) (hrest : ws.map Visit.call = rounds chain (done + 1) n) :
    ∀ v ∈ ⟨.step (done + 1), s, .ok false u⟩ :: (hooked ++
        ⟨.judge (done + 1), m, .ok (decide (done + 1 = N)) w⟩ :: ws),
      v.Lawful o (fun k => if k = done then x₀ else x k)
        (fun k => if k = done then c₀ else change k) N := by
  have hx : ∀ k, done < k → (if k = done then x₀ else x k) = x k := fun k hk =>
    if_neg (Nat.ne_of_gt hk)
  have hc : ∀ k, done < k → (if k = done then c₀ else change k) = change k := fun k hk =>
    if_neg (Nat.ne_of_gt hk)
  -- every call but the first belongs to a later iteration, where nothing has been redefined
  have later : ∀ v ∈ hooked ++ ⟨.judge (done + 1), m, .ok (decide (done + 1 = N)) w⟩ :: ws,
      v.Lawful o x change N ∧ done < v.call.done ∧ ∀ k, v.call = .step k → done < k := by
    intro v hv
    rcases List.mem_append.mp hv with hv | hv
    · have hcall : v.call ∈ hooks chain .iteration (done + 1) :=
        hcalls ▸ List.mem_map_of_mem hv
      obtain ⟨d, hd⟩ := mem_hooks hcall
      refine ⟨.of_hook rfl hcall (hhooked v hv), ?_, fun k hk => ?_⟩
      · rw [hd]
        exact Nat.lt_succ_self done
      · rw [hd] at hk
        cases hk
    rcases List.mem_cons.mp hv with rfl | hv
    · exact ⟨.of_judge hm, Nat.lt_succ_self done, nofun⟩
    · have hmem : v.call ∈ rounds chain (done + 1) n := hrest ▸ List.mem_map_of_mem hv
      obtain ⟨hdone, hstep⟩ := done_of_mem_rounds hmem
      exact ⟨rest v hv, hdone, fun k hk => Nat.lt_of_succ_lt (hstep k hk)⟩
  intro v hv
  rcases List.mem_cons.mp hv with rfl | hv
  · refine .of_step ?_ (hu.trans (hx _ (Nat.lt_succ_self done)).symm)
    simpa only [if_true] using hs
  · obtain ⟨hlawful, hdone, hstep⟩ := later v hv
    exact hlawful.congr hx hc hdone hstep

omit [Scalar α] in
theorem dist_round (hd : p.manifold.dist x₀ (x (done + 1)) = .ok (change (done + 1)))
    (rest : ∀ k, done + 1 ≤ k → k < n →
      p.manifold.dist (x k) (x (k + 1)) = .ok (change (k + 1))) :
    ∀ k, done ≤ k → k < n →
      p.manifold.dist (if k = done then x₀ else x k) (if k + 1 = done then x₀ else x (k + 1)) =
        .ok (if k + 1 = done then c₀ else change (k + 1)) := by
  intro k hk hkn
  have hnext : k + 1 ≠ done := by omega
  rw [if_neg hnext, if_neg hnext]
  rcases Nat.eq_or_lt_of_le hk with rfl | hlt
  · rw [if_pos rfl]
    exact hd
  · rw [if_neg (Nat.ne_of_gt hlt)]
    exact rest k hlt hkn

omit [Scalar α] in
theorem map_call_round {u m w : Session ε α} {b : Bool} {hooked ws : List (Visit ε α)}
    (hle : done < n) (hcalls : hooked.map Visit.call = hooks chain .iteration (done + 1))
    (hrest : ws.map Visit.call = rounds chain (done + 1) n) :
    (⟨.step (done + 1), s, .ok false u⟩ :: (hooked ++ ⟨.judge (done + 1), m, .ok b w⟩ :: ws)).map
      Visit.call = rounds chain done n := by
  rw [rounds_of_lt chain hle, ← hcalls, ← hrest]
  simp only [List.map_cons, List.map_append]

end Round

/-- The iterations after the first `done` ones up to the `n`-th, with their calls. -/
structure Rounds (p : Problem ε α) (o : Options ε α) (chain : List (Decorator ε α))
    (x : Nat → Point α) (change : Nat → α) (done : Nat) (vs : List (Visit ε α)) (n : Nat)
    (t : Session ε α) : Prop where
  le : done ≤ n
  calls : vs.map Visit.call = rounds chain done n
  lawful : ∀ v ∈ vs, v.Lawful o x change n
  dist : ∀ k, done ≤ k → k < n → p.manifold.dist (x k) (x (k + 1)) = .ok (change (k + 1))
  closing : t.state.Shows (x n) n (change n) ""

namespace Rounds
variable {x : Nat → Point α} {change : Nat → α} {done n : Nat}

omit [Scalar α] in
theorem nil (hs : s.state.Shows (x n) n (change n) "") :
    Rounds p o chain x change n [] n s where
  le := Nat.le_refl n
  calls := (rounds_self chain n).symm
  lawful _ hv := absurd hv List.not_mem_nil
  dist _ hk hn := absurd hn (Nat.not_lt.mpr hk)
  closing := hs

omit [Scalar α] in
theorem cons {x₀ : Point α} {c₀ : α} {u m w : Session ε α} {hooked ws : List (Visit ε α)}
    (hs : s.state.Shows x₀ done c₀ "")
    (hd : p.manifold.dist x₀ (x (done + 1)) = .ok (change (done + 1)))
    (hu : u.state.x = x (done + 1))
    (hcalls : hooked.map Visit.call = hooks chain .iteration (done + 1))
    (hhooked : ∀ v ∈ hooked, v.before.state.Shows (x (done + 1)) (done + 1) (change (done + 1)) "")
    (hm : m.state.Shows (x (done + 1)) (done + 1) (change (done + 1)) "")
    (rest : Rounds p o chain x change (done + 1) ws n t) :
    Rounds p o chain (fun k => if k = done then x₀ else x k)
      (fun k => if k = done then c₀ else change k) done
      (⟨.step (done + 1), s, .ok false u⟩ :: (hooked ++
        ⟨.judge (done + 1), m, .ok (decide (done + 1 = n)) w⟩ :: ws)) n t where
  le := Nat.le_of_succ_le rest.le
  calls := map_call_round rest.le hcalls rest.calls
  lawful := lawful_round hs hu hcalls hhooked hm rest.lawful rest.calls
  dist := dist_round hd rest.dist
  closing := by
    have hne : n ≠ done := Nat.ne_of_gt rest.le
    rw [if_neg hne, if_neg hne]
    exact rest.closing

end Rounds

theorem onward_ok {fuel done n : Nat} {stop : Bool} {x₀ : Point α} {c₀ : α}
    (hs : s.state.Shows x₀ done c₀ "")
    (h : Narrated.onward p o chain solver fuel done stop s = (vs, .ok n t)) :
    n ≤ done + fuel ∧ stop = decide (done = n) ∧
      ∃ x change, x done = x₀ ∧ change done = c₀ ∧ Rounds p o chain x change done vs n t := by
  -- the iterates matter from `done` on only, which leaves room to put a round in front
  induction fuel, done, stop using Narrated.onward.induct generalizing s vs x₀ c₀ with
  | case1 fuel done =>
    rw [Narrated.onward] at h
    obtain ⟨rfl, rfl, rfl⟩ := Scribe.pure_eq_ok_iff.mp h
    exact ⟨Nat.le_add_right n fuel, (decide_eq_true rfl).symm, fun _ => x₀, fun _ => c₀, rfl, rfl,
      .nil hs⟩
  | case2 done => cases (Scribe.tacit_eq_ok_iff.mp h).1
  | case3 fuel done ih =>
    obtain ⟨_, m, _, _, hp, h₁, rfl⟩ := Scribe.bind_eq_ok_iff.mp h
    obtain ⟨y, d, u, hooked, hd, hm, hu, rfl, hcalls, hhooked⟩ := pass_ok hs hp
    obtain ⟨stop, w, ws, hj, h₂, rfl⟩ := visit_bind_eq_ok_iff.mp h₁
    have hw : w.state.Shows y (done + 1) d "" := perform_judge hj ▸ hm
    obtain ⟨hn, rfl, x, change, rfl, rfl, rest⟩ := ih _ hw h₂
    have hne : done ≠ n := Nat.ne_of_lt rest.le
    refine ⟨by omega, (decide_eq_false hne).symm, _, _, ?_, ?_,
      .cons hs hd hu hcalls hhooked hm rest⟩
    · exact if_pos rfl
    · exact if_pos rfl

end Shape
end Solver
end Geodescent
