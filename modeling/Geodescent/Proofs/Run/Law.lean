import Geodescent.Proofs.Run.Linked
import Geodescent.Proofs.Run.Calm
import Geodescent.Manifold.Euclidean

/-! The law of a run. When no call fails and the criterion holds at some point, `solve_law` gives the
calls of the run, the way each of them starts where the one before ended, and what the options show
in each of them and at the end. -/
namespace Geodescent.Solver
variable {ε α : Type} [Scalar α]

variable {p : Problem ε α} {o : Options ε α} {chain : List (Decorator ε α)} {solver : Solver ε α}
  {s t : Session ε α} {vs : List (Visit ε α)}

theorem finish_ok {x : Point α} {n : Nat} {c : α} {r : String} (hs : s.state.Shows x n c r)
    (h : Narrated.finish p o chain solver n s = (vs, .ok () t)) :
    vs.map Visit.call = hooks chain .stop n ∧
      t.state.Shows x n c (t.nodes.get o.criterion.id).reason ∧
      ∀ v ∈ vs, v.before.state.Shows x n c (v.before.nodes.get o.criterion.id).reason := by
  obtain ⟨_, u, hclose, hw⟩ := Scribe.tacit_bind_eq_ok_iff.mp h
  cases hclose
  obtain ⟨hcalls, hstate, hnodes, hbefore⟩ := visitEach_hooks hw
  refine ⟨hcalls, ?_, fun v hv => ?_⟩
  · rw [hstate, hnodes]
    exact ⟨hs.x, hs.iteration, hs.lastChange, rfl⟩
  · rw [(hbefore v hv).1, (hbefore v hv).2]
    exact ⟨hs.x, hs.iteration, hs.lastChange, rfl⟩

theorem course_ok {fuel : Nat} {x₀ : Point α} (hs : s.state.Shows x₀ 0 0 "")
    (h : Narrated.course p o chain solver fuel s = (vs, .ok () t)) :
    ∃ n ≤ fuel, ∃ x change, x 0 = x₀ ∧ change 0 = 0 ∧
      vs.map Visit.call =
        hooks chain .start 0 ++ .judge 0 :: (rounds chain 0 n ++ hooks chain .stop n) ∧
      (∀ k < n, p.manifold.dist (x k) (x (k + 1)) = .ok (change (k + 1))) ∧
      (∀ v ∈ vs, v.Lawful o x change n) ∧
      t.state.Shows (x n) n (change n) (t.nodes.get o.criterion.id).reason := by
  obtain ⟨u, m, stop, w, n, r, starts, ws, stops, hstarts, rfl, hj, honward, hfinish, rfl⟩ :=
    course_parts h
  obtain ⟨hcalls, hstate, -, hbefore⟩ := visitEach_hooks hstarts
  have hu : u.state.Shows x₀ 0 0 "" := hstate ▸ hs
  have hw : w.state.Shows x₀ 0 0 "" := by
    rw [perform_judge hj]
    exact hu
  -- the iterations give the iterates; hooks and the first call see the books of their ends
  obtain ⟨hn, rfl, x, change, rfl, hchange, rest⟩ := onward_ok hw honward
  obtain ⟨hstops, hend, hafter⟩ := finish_ok rest.closing hfinish
  refine ⟨n, by omega, x, change, rfl, hchange, ?_, fun k hk => rest.dist k (Nat.zero_le k) hk,
    fun v hv => ?_, hend⟩
  · simp only [List.map_append, List.map_cons, hcalls, rest.calls, hstops]
  · rcases List.mem_append.mp hv with hv | hv
    · refine .of_hook rfl (hcalls ▸ List.mem_map_of_mem hv) ?_
      rw [(hbefore v hv).1, hchange]
      exact hs
    rcases List.mem_cons.mp hv with rfl | hv
    · refine .of_judge ?_
      rw [hchange]
      exact hu
    rcases List.mem_append.mp hv with hv | hv
    · exact rest.lawful v hv
    · exact .of_hook rfl (hstops ▸ List.mem_map_of_mem hv) (hafter v hv)

/-- The calls `vs` of a run of `n` iterations over the iterates `x`, from the session `s` in which
the starting point has been accepted to the session `t` at the end. -/
structure Course (p : Problem ε α) (o : Options ε α) (chain : List (Decorator ε α))
    (solver : Solver ε α) (x : Nat → Point α) (change : Nat → α) (n : Nat) (s : Session ε α)
    (vs : List (Visit ε α)) (t : Session ε α) : Prop where
  calls : vs.map Visit.call = calls chain n
  linked : Linked s vs t
  performed : ∀ v ∈ vs, v.outcome = v.call.perform p o solver v.before
  lawful : ∀ v ∈ vs, v.Lawful o x change n
  rest : change 0 = 0
  dist : ∀ k < n, p.manifold.dist (x k) (x (k + 1)) = .ok (change (k + 1))
  closing : t.state.Shows (x n) n (change n) (t.nodes.get o.criterion.id).reason

theorem outcome_of_mem_history {fuel : Nat} {v : Visit ε α}
    (hv : v ∈ history fuel p o chain solver s) :
    v.outcome = v.call.perform p o solver v.before := by
  have inv : Invariant p o solver (fun _ => True) fun v =>
      v.outcome = v.call.perform p o solver v.before :=
    ⟨fun _ _ _ h => h, fun _ => rfl, fun _ _ _ _ => trivial, fun _ _ _ _ => rfl,
      fun _ _ _ _ _ _ _ => trivial⟩
  exact (inv.history fuel s).1 v hv

theorem narrated_of_solve {fuel : Nat} (h : solve fuel p o chain solver s = .ok () t) :
    Narrated.solve p o chain solver fuel s = (history fuel p o chain solver s, .ok () t) := by
  rw [← outcome_solve] at h
  exact Prod.ext rfl h

/-- A run that returns has taken its course. -/
theorem course_of_solve {fuel : Nat} (h : solve fuel p o chain solver s = .ok () t) :
    ∃ s₁, validate p s = .ok () s₁ ∧ ∃ n ≤ fuel, ∃ x change,
      Course p o chain solver x change n s₁ (history fuel p o chain solver s) t := by
  have performed : ∀ v ∈ history fuel p o chain solver s,
      v.outcome = v.call.perform p o solver v.before := fun v hv => outcome_of_mem_history hv
  obtain ⟨s₁, w, vs, hvalid, hprepare, hcourse, hs⟩ := solve_parts (narrated_of_solve h)
  rw [hs] at performed ⊢
  have hshows : w.state.Shows w.state.x 0 0 "" := shows_prepare hprepare
  obtain ⟨n, hn, x, change, hx, hchange, hcalls, hdist, hlawful, hend⟩ :=
    course_ok hshows hcourse
  have linked : Linked (s₁.advance opened) (⟨.prepare, s₁.advance opened, .ok false w⟩ :: vs) t :=
    .cons (.refl _) rfl (links_course fuel w vs () t hcourse)
  refine ⟨s₁, hvalid, n, hn, x, change, congrArg (Call.prepare :: ·) hcalls,
    linked.of_agrees (agrees_opened s₁), performed, fun v hv => ?_, hchange, hdist, hend⟩
  rcases List.mem_cons.mp hv with rfl | hv
  · exact .of_prepare hx.symm hchange
  · exact hlawful v hv

theorem calls_of_solve {fuel : Nat} (h : solve fuel p o chain solver s = .ok () t) :
    ∃ n, t.state.iteration = .whole (Int.ofNat n) ∧
      (history fuel p o chain solver s).map Visit.call = calls chain n ∧
      ∀ v ∈ history fuel p o chain solver s, ∀ k, v.call = .judge k →
        ∃ u, v.outcome = .ok (decide (k = n)) u := by
  obtain ⟨_, -, n, -, x, change, course⟩ := course_of_solve h
  exact ⟨n, course.closing.iteration, course.calls, fun v hv => (course.lawful v hv).answers⟩

theorem linked_of_solve {fuel : Nat} (h : solve fuel p o chain solver s = .ok () t) :
    ∃ s₁, validate p s = .ok () s₁ ∧ Linked s₁ (history fuel p o chain solver s) t := by
  obtain ⟨s₁, hvalid, _, -, _, _, course⟩ := course_of_solve h
  exact ⟨s₁, hvalid, course.linked⟩

/-- The law of a run: which calls it makes, in which order, what the options show in each of them
and what is left at the end. -/
theorem solve_law {fuel : Nat} {s₁ : Session ε α} (accepted : validate p s = .ok () s₁)
    (calm : ∀ v ∈ history fuel p o chain solver s, v.Calm p)
    (holds : ∃ v ∈ history fuel p o chain solver s, v.Stops) :
    ∃ n ≤ fuel, ∃ t x change, solve fuel p o chain solver s = .ok () t ∧
      Course p o chain solver x change n s₁ (history fuel p o chain solver s) t := by
  obtain ⟨t, h⟩ := solve_of_calm accepted calm holds
  have hsolve : solve fuel p o chain solver s = .ok () t := by
    rw [← outcome_solve, Scribe.outcome, h]
  obtain ⟨s', hvalid, n, hn, x, change, course⟩ := course_of_solve hsolve
  rw [accepted] at hvalid
  cases hvalid
  exact ⟨n, hn, t, x, change, hsolve, course⟩

def line : Problem Unit Float := ⟨Manifold.euclideanOf (.whole 1), fun _ _ => pure 0, .costOnly⟩

def counting : Solver Unit Float where
  text := "Counting"
  prepare _ _ := pure ()
  step _ _ _ k := modify (Stepping.place fun q => q.moveTo (.array ⟨[1], .whole [k]⟩))

def twice : Options Unit Float := ⟨.plain, .atom 0 (.cap 2), .constant 1⟩

def origin : Session Unit Float := .start () .standard (.start (.array ⟨[1], .whole [0]⟩))

theorem solve_law_counting : ∃ n ≤ 3, ∃ t x change,
    solve 3 line twice [.plain, .plain] counting origin = .ok () t ∧
      Course line twice [.plain, .plain] counting x change n origin
        (history 3 line twice [.plain, .plain] counting origin) t :=
  solve_law rfl (by decide) (by decide)

end Geodescent.Solver
