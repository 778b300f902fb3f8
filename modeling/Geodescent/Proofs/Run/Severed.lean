import Geodescent.Proofs.Descent.Realised
import Geodescent.Proofs.Observation.Log
import Geodescent.Proofs.Run.Raised

/-! What a run leaves behind that a failed step cuts off: what a run does in its finished iterations,
and nothing of the end. `severed_law` says this of the books and of the records at once. -/
namespace Geodescent.Solver
variable {ε α : Type} [Scalar α] {p : Problem ε α} {o : Options ε α} {chain : List (Decorator ε α)}
  {solver : Solver ε α} {s t : Session ε α} {v : Visit ε α} {e : Fault α} {k : Nat}

section Books
variable {x : Nat → Point α} {change : Nat → α} {n : Nat} {vs : List (Visit ε α)}

omit [Scalar α] in
theorem Visit.Failed.lawful (h : v.Failed (n + 1) e t)
    (hshows : v.before.state.Shows (x n) n (change n) "") : v.Lawful o x change (n + 1) := by
  have hcall := h.call
  have hreason : v.reason o = "" := by
    rw [Visit.reason, hcall]
  have hdone : v.call.done = n := by
    rw [hcall]
    rfl
  refine ⟨fun hp => ?_, fun _ => ?_, fun j b u _ hu => ?_, fun j hj => ?_⟩
  · cases hcall.symm.trans hp
  · rw [hreason, hdone]
    exact hshows
  · cases h.outcome.symm.trans hu
  · cases hcall.symm.trans hj

theorem Interrupted.logged {g : RecordAction} (h : Interrupted p o chain x change s vs n v)
    (performed : Performed p o solver vs) (apart : chain.Pairwise Decorator.Apart)
    (hg : .record g ∈ chain) (distinct : g.Distinct) :
    ∃ ws, Logged p g (laps n) vs ws v.before := by
  obtain ⟨pre, post, rfl, hpre, hpost⟩ := Decorator.exists_split apart hg
  have spared : ∀ e ∈ pre ++ post, e.Spares g.ids := List.forall_mem_append.mpr ⟨hpre, hpost⟩
  obtain ⟨ws, hsub, hcalls, -, -, hend⟩ :=
    (tally_noting distinct spared).of_running h.linked performed h.calls trivial
  have returned : ∀ u ∈ vs, ∃ b w, u.call.perform p o solver u.before = .ok b w := by
    intro u hu
    rw [← performed u hu]
    exact h.linked.returned u hu
  have hmoments : ∀ m ∈ laps n, m.1 ≠ .start ∧ (m.1 = .iteration → 0 < m.2) := by
    intro m hm
    have hbeat : m ∈ beats n := by
      rw [beats_eq]
      exact List.mem_append_left _ hm
    exact start_notin_beats hbeat
  exact logged_of_foldl distinct returned hsub hcalls hmoments hend

end Books

/-- A run that ends in the step after `n` iterations: its calls `vs`, with the failed one, over the
iterates `x`, and the books and records in the session `t` that it leaves. -/
structure Aborted (p : Problem ε α) (o : Options ε α) (chain : List (Decorator ε α))
    (x : Nat → Point α) (change : Nat → α) (n : Nat) (vs : List (Visit ε α)) (t : Session ε α) :
    Prop where
  calls : vs.map Visit.call = callsUntil chain n ++ [.step (n + 1)]
  lawful : ∀ v ∈ vs, v.Lawful o x change (n + 1)
  rest : change 0 = 0
  dist : ∀ k < n, p.manifold.dist (x k) (x (k + 1)) = .ok (change (k + 1))
  iteration : t.state.iteration = .whole (Int.ofNat n)
  lastChange : t.state.lastChange = .real (change n)
  stopReason : t.state.stopReason = .text ""
  recorded : chain.Pairwise Decorator.Apart → ∀ g, .record g ∈ chain → g.Distinct →
    ∃ ws, Logged p g (laps n) vs ws t

/-- The law of aborted runs. A step of a library solver fails exactly when something that it calls
raises a fault. A run with a failed step fails with that very fault, its calls are those of the
iterations before and the failed one, and the books and the records are those of the iterations
before. The failed step itself has touched nothing but the surroundings, the journal and the
position. -/
theorem severed_law (fuel : Nat) (s : Session ε α) :
    ∀ v ∈ history fuel p o chain solver s, ∀ k, v.call = .step k → ∀ e,
      (solver = descent ∨ solver = sweep →
        (Raises p o k v.before e solver ↔ ∃ t, v.outcome = .error e t)) ∧
      ∀ t, v.outcome = .error e t → ∃ n x change, k = n + 1 ∧
        solve fuel p o chain solver s = .error e t ∧
        Aborted p o chain x change n (history fuel p o chain solver s) t ∧
        ∃ u, t = (Session.stepping ε α).set u v.before := by
  intro v hv k hk e
  have performed := outcome_of_mem_history hv
  refine ⟨fun library => ?_, fun t ht => ?_⟩
  · rw [raises_iff library, performed, hk]
  have hfailed : v.Failed k e t := ⟨hk, ht⟩
  obtain ⟨s₁, n, x, change, vs, -, rfl, hsolve, interrupted⟩ := solve_of_failed hv hfailed
  have hhistory : history fuel p o chain solver s = vs ++ [v] := congrArg Prod.fst hsolve
  have hran : Performed p o solver vs := fun u hu =>
    outcome_of_mem_history (hhistory ▸ List.mem_append_left [v] hu)
  -- the books are not in the part of the session that a step can write to
  obtain ⟨u, hu⟩ := after_of_failed hfailed performed
  refine ⟨n, x, change, rfl, ?_, ?_, u, hu⟩
  · rw [← outcome_solve, Scribe.outcome, hsolve]
  rw [hhistory]
  refine ⟨?_, ?_, interrupted.rest, interrupted.dist, ?_, ?_, ?_, fun apart g hg distinct => ?_⟩
  · rw [List.map_append, interrupted.calls, List.map_singleton, hk]
  · exact List.forall_mem_append.mpr ⟨interrupted.lawful,
      List.forall_mem_singleton.mpr (hfailed.lawful interrupted.closing)⟩
  · rw [hu]
    exact interrupted.closing.iteration
  · rw [hu]
    exact interrupted.closing.lastChange
  · rw [hu]
    exact interrupted.closing.stopReason
  · obtain ⟨ws, logged⟩ := interrupted.logged hran apart hg distinct
    refine ⟨ws, logged.sublist.trans (List.sublist_append_left vs [v]), logged.calls,
      logged.captured, fun b hb => ?_⟩
    rw [hu]
    exact logged.recorded b hb

def tiring : Stepsize Unit Float :=
  .custom "Tiring" "Tiring()" fun _ k =>
    match k with
    | .whole 1 => pure (.real 0.25)
    | _ => throw (.oracle "tired")

def tired : Options Unit Float := ⟨.descent .standard, .atom 0 (.cap 3), tiring⟩

theorem severed_law_tired : ∃ t x change,
    solve 3 valley tired [.plain, .record ledger] descent hillside = .error (.oracle "tired") t ∧
      Aborted valley tired [.plain, .record ledger] x change 1
        (history 3 valley tired [.plain, .record ledger] descent hillside) t := by
  obtain ⟨v, hv, hk⟩ : ∃ v ∈ history 3 valley tired [.plain, .record ledger] descent hillside,
      v.call = .step 2 := by
    decide +kernel
  have hraises : Raises valley tired 2 v.before (.oracle "tired") descent :=
    .descent (.length (.rule rfl))
  obtain ⟨hiff, hcut⟩ := severed_law 3 hillside v hv 2 hk (.oracle "tired")
  obtain ⟨t, ht⟩ := (hiff (.inl rfl)).mp hraises
  obtain ⟨n, x, change, hn, hsolve, aborted, -⟩ := hcut t ht
  cases hn
  exact ⟨t, x, change, hsolve, aborted⟩

end Geodescent.Solver
