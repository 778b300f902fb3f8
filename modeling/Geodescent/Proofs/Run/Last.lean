import Geodescent.Proofs.Observation.Change
import Geodescent.Proofs.Observation.Tally

/-! The end of a run. After the last step nobody moves any more: the hooks of the last iteration and
those of the stop see the position in which the run ends, and the actions that remember points have
come to remember this one when they hear of the stop. -/
namespace Geodescent.Solver
variable {ε α : Type} [Scalar α] {p : Problem ε α} {o : Options ε α}
  {chain : List (Decorator ε α)} {solver : Solver ε α} {d : Decorator ε α} {s t m : Session ε α}
  {vs : List (Visit ε α)} {v w : Visit ε α} {n fuel : Nat}

omit [Scalar α] in
theorem Linked.keeps {I : Session ε α → Prop} (linked : Linked s vs t)
    (books : ∀ s t, s.Agrees t → I s → I t)
    (kept : ∀ v ∈ vs, ∀ b u, I v.before → v.outcome = .ok b u → I u) (hs : I s) :
    (∀ v ∈ vs, I v.before) ∧ I t := by
  induction linked with
  | nil agrees => exact ⟨fun _ hv => absurd hv List.not_mem_nil, books _ _ agrees hs⟩
  | cons agrees hu _ ih =>
    obtain ⟨hfirst, hrest⟩ := List.forall_mem_cons.mp kept
    have hbefore := books _ _ agrees hs
    obtain ⟨hall, ht⟩ := ih hrest (hfirst _ _ hbefore hu)
    exact ⟨List.forall_mem_cons.mpr ⟨hbefore, hall⟩, ht⟩

section Round

omit [Scalar α] in
theorem rounds_succ (chain : List (Decorator ε α)) (n : Nat) :
    rounds chain 0 (n + 1) = rounds chain 0 n ++
      .step (n + 1) :: (hooks chain .iteration (n + 1) ++ [.judge (n + 1)]) := by
  simp only [rounds, Nat.zero_add, Nat.sub_zero, List.range'_1_concat, List.flatMap_append,
    List.flatMap_singleton, Nat.add_comm 1]

omit [Scalar α] in
theorem le_of_mem_rounds {c : Call ε α} (h : c ∈ rounds chain 0 n) : c.done ≤ n := by
  obtain ⟨k, hk, hc⟩ := List.mem_flatMap.mp h
  have hk := List.mem_range'_1.mp hk
  rcases List.mem_cons.mp hc with rfl | hc
  · simp only [Call.done]
    omega
  rcases List.mem_append.mp hc with hc | hc
  · obtain ⟨d, rfl⟩ := mem_hooks hc
    simp only [Call.done]
    omega
  · rw [List.mem_singleton.mp hc, Call.done]
    omega

/-- The calls of a run of `n` iterations from its last step on, which ends in the session `m`: the hooks
of the iteration, the call of the criterion and the hooks of the stop. -/
structure LastRound (chain : List (Decorator ε α)) (n : Nat) (vs earlier : List (Visit ε α))
    (step : Visit ε α) (m : Session ε α) (ending : List (Visit ε α)) (t : Session ε α) : Prop where
  split : vs = earlier ++ step :: ending
  before : ∀ v ∈ earlier, v.call.done < n
  call : step.call = .step n
  outcome : ∃ b, step.outcome = .ok b m
  calls : ending.map Visit.call =
    hooks chain .iteration n ++ .judge n :: hooks chain .stop n
  linked : Linked m ending t

theorem lastRound_of_solve (h : solve fuel p o chain solver s = .ok () t)
    (hn : t.state.iteration = .whole (Int.ofNat n)) (pos : 0 < n) :
    ∃ earlier step m ending,
      LastRound chain n (history fuel p o chain solver s) earlier step m ending t := by
  obtain ⟨n', hn', hcalls, -⟩ := calls_of_solve h
  obtain rfl : n' = n := by
    rw [hn] at hn'
    cases hn'
    rfl
  obtain ⟨_, -, linked⟩ := linked_of_solve h
  generalize history fuel p o chain solver s = vs at hcalls linked ⊢
  obtain ⟨k, rfl⟩ := Nat.exists_eq_succ_of_ne_zero (Nat.ne_of_gt pos)
  have hsplit : calls chain (k + 1) =
      (.prepare :: (hooks chain .start 0 ++ .judge 0 :: rounds chain 0 k)) ++ .step (k + 1) ::
        (hooks chain .iteration (k + 1) ++ .judge (k + 1) :: hooks chain .stop (k + 1)) := by
    simp only [calls, rounds_succ, List.cons_append, List.append_assoc, List.nil_append]
  -- the calls of the run, cut before the last step
  obtain ⟨earlier, later, rfl, hearlier, hlater⟩ := List.map_eq_append_iff.mp (hcalls.trans hsplit)
  obtain ⟨step, ending, rfl, hstep, hending⟩ := List.map_eq_cons_iff.mp hlater
  obtain ⟨_, -, hlinked⟩ := linked.split
  cases hlinked with
  | cons _ hm hrest =>
    refine ⟨earlier, step, _, ending, rfl, fun v hv => ?_, hstep, ⟨_, hm⟩, hending, hrest⟩
    have hmem : v.call ∈ earlier.map Visit.call := List.mem_map_of_mem hv
    rw [hearlier] at hmem
    rcases List.mem_cons.mp hmem with hc | hmem
    · rw [hc]
      exact k.succ_pos
    rcases List.mem_append.mp hmem with hc | hmem
    · obtain ⟨d, hd⟩ := mem_hooks hc
      rw [hd]
      exact k.succ_pos
    rcases List.mem_cons.mp hmem with hc | hc
    · rw [hc]
      exact k.succ_pos
    · exact Nat.lt_succ_of_le (le_of_mem_rounds hc)

end Round

namespace LastRound
variable {earlier ending : List (Visit ε α)} {step : Visit ε α}
  (round : LastRound chain n vs earlier step m ending t)
include round

omit [Scalar α] in
theorem mem_ending (hv : v ∈ vs) (hdone : v.call.done = n) (pos : 0 < n) : v ∈ ending := by
  rw [round.split] at hv
  rcases List.mem_append.mp hv with hv | hv
  · exact absurd hdone (Nat.ne_of_lt (round.before v hv))
  rcases List.mem_cons.mp hv with rfl | hv
  · rw [round.call, Call.done] at hdone
    omega
  · exact hv

omit [Scalar α] in
theorem mem_vs (hv : v ∈ ending) : v ∈ vs := by
  rw [round.split]
  exact List.mem_append_right _ (List.mem_cons_of_mem _ hv)

omit [Scalar α] in
theorem call_cases (hv : v ∈ ending) :
    (∃ phase, ∃ e ∈ chain, v.call = .hook phase n e) ∨ v.call = .judge n := by
  have heard {phase : Phase} (h : v.call ∈ hooks chain phase n) :
      ∃ phase, ∃ e ∈ chain, v.call = .hook phase n e := by
    obtain ⟨e, he, hcall⟩ := List.mem_map.mp h
    exact ⟨phase, e, he, hcall.symm⟩
  have hmem : v.call ∈ ending.map Visit.call := List.mem_map_of_mem hv
  rw [round.calls] at hmem
  rcases List.mem_append.mp hmem with hcall | hmem
  · exact .inl (heard hcall)
  rcases List.mem_cons.mp hmem with hcall | hcall
  · exact .inr hcall
  · exact .inl (heard hcall)

theorem settled (performed : Performed p o solver vs) :
    (∀ v ∈ ending, v.before.state.position = t.state.position ∧
      v.before.settings = t.settings) ∧ m.state.position = t.state.position := by
  have kept (v) (hv : v ∈ ending) (b : Bool) (u : Session ε α)
      (hI : v.before.state.position = m.state.position ∧ v.before.settings = m.settings)
      (hu : v.outcome = .ok b u) :
      u.state.position = m.state.position ∧ u.settings = m.settings := by
    have hperform := (performed v (round.mem_vs hv)).symm.trans hu
    rcases round.call_cases hv with ⟨phase, e, -, hcall⟩ | hcall
    · rw [hcall] at hperform
      obtain ⟨w, -, rfl⟩ := tell_of_perform hperform
      exact hI
    · rw [hcall] at hperform
      rw [perform_judge hperform, (memory_of_perform (Call.judge_ne_hook n) hperform).2.2]
      exact hI
  obtain ⟨hall, hposition, hsettings⟩ := round.linked.keeps
    (I := fun u => u.state.position = m.state.position ∧ u.settings = m.settings)
    (fun s t agrees hI => ⟨agrees.position.trans hI.1, agrees.settings.trans hI.2⟩) kept ⟨rfl, rfl⟩
  rw [hposition, hsettings]
  exact ⟨hall, rfl⟩

end LastRound

section Watching
variable {k : Nat} {x : Point α} {b : Bool}

theorem watching_of_stopped (hs : Watching d x s)
    (h : (Call.hook .stop k d).perform p o solver s = .ok b t) : Watching d x t := by
  obtain ⟨u, htell, rfl⟩ := tell_of_perform h
  have hstopped : (told p .stop k s).stopped = true := rfl
  intro i hi
  have hsame : (u.memory.get i).previous = (s.memory.get i).previous := by
    cases d with
    | plain | custom _ _ _ => exact absurd hi List.not_mem_nil
    | debug a =>
      obtain ⟨gs, hrun⟩ := Decorator.tell_debug htell
      rw [(DebugAction.run_ok hrun).kept.previous, hstopped, if_neg (by simp)]
      rfl
    | record g =>
      obtain ⟨cs, ds, hrun⟩ := Decorator.tell_record (by simp) htell
      rw [(RecordAction.run_ok hrun).kept.previous, hstopped, if_neg (by simp)]
      rfl
  exact hsame.trans (hs i hi)

namespace LastRound
variable {earlier ending : List (Visit ε α)} {step : Visit ε α} {pre post : List (Decorator ε α)}

omit [Scalar α] in
theorem split_at (round : LastRound (pre ++ d :: post) n vs earlier step m ending t) :
    ∃ first v later b u, ending = first ++ v :: later ∧
      (∀ z ∈ first, ∃ e, z.call = .hook .iteration n e) ∧ v.call = .hook .iteration n d ∧
      v.outcome = .ok b u ∧ Linked u later t ∧
      ∀ z ∈ later, z.call = .judge n ∨ ∃ phase e, z.call = .hook phase n e ∧
        (e ∈ pre ++ post ∨ phase = .stop ∧ e = d) := by
  have hsplit : hooks (pre ++ d :: post) .iteration n ++ .judge n :: hooks (pre ++ d :: post) .stop n =
      hooks pre .iteration n ++ .hook .iteration n d :: (hooks post .iteration n ++
        .judge n :: hooks (pre ++ d :: post) .stop n) := by
    simp only [hooks, List.map_append, List.map_cons, List.append_assoc, List.cons_append]
  -- `d` is told twice from here on, after the iteration and at the stop
  obtain ⟨first, rest, rfl, hfirst, hrest⟩ := List.map_eq_append_iff.mp (round.calls.trans hsplit)
  obtain ⟨v, later, rfl, hv, hlater⟩ := List.map_eq_cons_iff.mp hrest
  obtain ⟨_, -, hlinked⟩ := round.linked.split
  cases hlinked with
  | cons _ hu hlinked =>
    refine ⟨first, v, later, _, _, rfl, fun z hz => ?_, hv, hu, hlinked, fun z hz => ?_⟩
    · have hcall : z.call ∈ first.map Visit.call := List.mem_map_of_mem hz
      rw [hfirst] at hcall
      exact mem_hooks hcall
    · have hcalls : z.call ∈ later.map Visit.call := List.mem_map_of_mem hz
      rw [hlater] at hcalls
      rcases List.mem_append.mp hcalls with hcalls | hcalls
      · obtain ⟨e, he, hcall⟩ := List.mem_map.mp hcalls
        exact .inr ⟨.iteration, e, hcall.symm, .inl (List.mem_append_right pre he)⟩
      rcases List.mem_cons.mp hcalls with hcall | hcalls
      · exact .inl hcall
      · obtain ⟨e, he, hcall⟩ := List.mem_map.mp hcalls
        refine .inr ⟨.stop, e, hcall.symm, ?_⟩
        rcases List.mem_append.mp he with he | he
        · exact .inl (List.mem_append_left post he)
        rcases List.mem_cons.mp he with rfl | he
        · exact .inr ⟨rfl, rfl⟩
        · exact .inl (List.mem_append_right pre he)

theorem watching (round : LastRound chain n vs earlier step m ending t)
    (performed : Performed p o solver vs) (apart : chain.Pairwise Decorator.Apart) (hd : d ∈ chain)
    (hw : w ∈ ending) (hcall : w.call = .hook .stop n d) : Watching d t.state.x w.before := by
  have settled := (round.settled performed).1
  have hmade := fun v hv => performed v (round.mem_vs hv)
  obtain ⟨pre, post, rfl, hpre, hpost⟩ := Decorator.exists_split apart hd
  have spared : ∀ e ∈ pre ++ post, e.Spares d.ids := List.forall_mem_append.mpr ⟨hpre, hpost⟩
  obtain ⟨first, v, later, b, u, rfl, hfirst, hv, hu, hlinked, hlater⟩ := round.split_at
  have hmem : v ∈ first ++ v :: later := List.mem_append_right _ List.mem_cons_self
  have hperform := (hmade v hmem).symm.trans hu
  rw [hv] at hperform
  have hx : u.state.x = t.state.x := by
    rw [State.x, (perform_hook hperform).2.1, (settled v hmem).1, State.x]
  -- the action has just looked at the last point, and nobody touches its memory from here on
  have hnow : Watching d t.state.x u := hx ▸ watching_of_told (by simp) hperform
  have kept (z) (hz : z ∈ later) (b : Bool) (u : Session ε α) (hI : Watching d t.state.x z.before)
      (hu : z.outcome = .ok b u) : Watching d t.state.x u := by
    have hz' : z ∈ first ++ v :: later := List.mem_append_right _ (List.mem_cons_of_mem v hz)
    have hthen := (hmade z hz').symm.trans hu
    rcases hlater z hz with hcalled | ⟨phase, e, hcalled, he | ⟨hphase, hsame⟩⟩
    · rw [hcalled] at hthen
      exact watching_of_other hthen (Call.judge_ne_hook n) hI
    · rw [hcalled] at hthen
      exact watching_of_spared (spared e he) hI hthen
    · rw [hcalled, hphase, hsame] at hthen
      exact watching_of_stopped hI hthen
  have hall := (hlinked.keeps (I := Watching d t.state.x)
    (fun s t agrees hI i hi => (congrArg (fun store => (store.get i).previous)
      agrees.memory).trans (hI i hi)) kept hnow).1
  rcases List.mem_append.mp hw with hw | hw
  · obtain ⟨e, he⟩ := hfirst w hw
    cases hcall.symm.trans he
  rcases List.mem_cons.mp hw with rfl | hw
  · cases hcall.symm.trans hv
  · exact hall w hw

end LastRound
end Watching

end Geodescent.Solver
