import Geodescent.Proofs.Observation.Tally

/-! The records that a run leaves. A record starts empty and captures in every iteration and at the
stop. Its leaves keep the values they gave at the moments at which they acted, and its groups one
tuple for every moment at which one of their leaves did: `log_law`. -/
namespace Geodescent.Solver
variable {ε α : Type} [Scalar α] {p : Problem ε α} {o : Options ε α}
  {chain : List (Decorator ε α)} {solver : Solver ε α} {s t : Session ε α} {g : RecordAction}
  {phase : Phase} {k : Nat} {v : Visit ε α}

def Visit.values (p : Problem ε α) (v : Visit ε α) (id : Nat) : List (Datum α) :=
  Capture.valuesOf (v.captures p) id

/-- A call of the hook of a record: which leaves give a value, and which groups make a tuple. -/
structure Visit.Captured (p : Problem ε α) (g : RecordAction) (phase : Phase) (k : Nat)
    (v : Visit ε α) : Prop where
  acting : ∀ ℓ ∈ g.leaves, ℓ.Acts (Int.ofNat k) (phase = .stop) →
    ∃ c ∈ v.captures p, c.site = (ℓ.id, ℓ.kind) ∧
      c.outcome = RecordAction.capture (told p phase k v.before) ℓ.id ℓ.kind c.before ∧
      c.before.memory.get ℓ.id = v.before.memory.get ℓ.id ∧
      ∃ d u, c.outcome = .ok d u ∧ v.values p ℓ.id = [d]
  resting : ∀ ℓ ∈ g.leaves, ¬ ℓ.Acts (Int.ofNat k) (phase = .stop) → v.values p ℓ.id = []
  grouped : ∀ b ∈ g.nodes, b.entries (v.values p) ≠ [] ↔
    ∃ ℓ ∈ g.leaves, ℓ.id ∈ b.leaves.map Leaf.id ∧ ℓ.Acts (Int.ofNat k) (phase = .stop)

theorem captures_eq (hphase : phase ≠ .start) (hcall : v.call = .hook phase k (.record g)) :
    v.captures p = (RecordAction.Narrated.run (told p phase k v.before) g
      ((Session.observing ε α).get v.before)).1 := by
  rw [Visit.captures, hcall]
  cases phase with
  | start => exact absurd rfl hphase
  | iteration | stop => rfl

omit [Scalar α] in
theorem due_told_iff (hphase : phase ≠ .start) (hk : phase = .iteration → 0 < k)
    {ℓ : Leaf RecordKind} : RecordAction.Due ℓ (told p phase k s).iteration
      (told p phase k s).stopped ↔ ℓ.Acts (Int.ofNat k) (phase = .stop) := by
  refine ⟨fun hdue => hdue.2, fun hacts => ⟨fun hrunning => ?_, hacts⟩⟩
  have hiteration : phase = .iteration := by
    cases phase with
    | start => exact absurd rfl hphase
    | iteration => rfl
    | stop => cases hrunning
  exact Int.natCast_pos.mpr (hk hiteration)

theorem captured_of_visit (distinct : g.Distinct) (hphase : phase ≠ .start)
    (hk : phase = .iteration → 0 < k) (hcall : v.call = .hook phase k (.record g)) {b : Bool}
    (h : v.call.perform p o solver v.before = .ok b t) : v.Captured p g phase k := by
  rw [hcall] at h
  obtain ⟨w, htell, -⟩ := tell_of_perform h
  obtain ⟨cs, ds, hrun⟩ := Decorator.tell_record hphase htell
  have hcs : v.captures p = cs := (captures_eq hphase hcall).trans (congrArg Prod.fst hrun)
  have ran := RecordAction.run_ok hrun
  have asked := (RecordAction.leads_run (t := told p phase k v.before)
    (m := fun i => v.before.memory.get i) distinct).entries (fun _ _ => rfl) hrun
  have hleaves : (g.leaves.map Leaf.id).Nodup := g.leaf_ids_sublist.nodup distinct
  have hacting : ∀ ℓ ∈ g.leaves, ℓ.Acts (Int.ofNat k) (phase = .stop) → ∃ c ∈ cs,
      c.site = (ℓ.id, ℓ.kind) ∧ ∃ d u, c.outcome = .ok d u ∧ v.values p ℓ.id = [d] := by
    intro ℓ hℓ hacts
    rw [Visit.values, hcs]
    exact (ran.valuesOf_eq hleaves hℓ).1 ((due_told_iff hphase hk).mpr hacts)
  have hresting : ∀ ℓ ∈ g.leaves, ¬ ℓ.Acts (Int.ofNat k) (phase = .stop) →
      v.values p ℓ.id = [] := by
    intro ℓ hℓ hacts
    rw [Visit.values, hcs]
    exact (ran.valuesOf_eq hleaves hℓ).2 fun h => hacts ((due_told_iff hphase hk).mp h)
  refine ⟨fun ℓ hℓ hacts => ?_, hresting, fun b hb =>
    RecordAction.entries_ne_nil_iff (fun ℓ hℓ hacts => ?_) hresting hb⟩
  · obtain ⟨c, hc, hsite, hvalue⟩ := hacting ℓ hℓ hacts
    obtain ⟨hid, hkind⟩ := Prod.mk.inj hsite
    have hmemory := (asked c hc).memory
    have houtcome := (asked c hc).outcome
    rw [hid] at hmemory
    rw [hid, hkind] at houtcome
    exact ⟨c, hcs ▸ hc, hsite, houtcome, hmemory, hvalue⟩
  · obtain ⟨c, -, -, d, u, -, hvalue⟩ := hacting ℓ hℓ hacts
    rw [hvalue]
    exact List.cons_ne_nil d []

section Noted
variable {others : List (Decorator ε α)}

/-- What a call of a hook makes of the records of the nodes of a tree. -/
def noting (p : Problem ε α) (g : RecordAction) (noted : {b // b ∈ g.nodes} → List (Datum α))
    (v : Visit ε α) : {b // b ∈ g.nodes} → List (Datum α) :=
  match v.call with
  | .hook .start _ _ => fun _ => []
  | _ => fun b => noted b ++ b.1.entries (v.values p)

theorem tally_noting (distinct : g.Distinct) (apart : ∀ e ∈ others, e.Spares g.ids) :
    Tally p o solver others (.record g) (fun _ => True)
      (fun s (b : {b // b ∈ g.nodes}) => b.1.recorded s.memory) (noting p g) where
  books s t h _ := by
    refine ⟨trivial, ?_⟩
    funext b
    rw [h.memory]
  others c s b t h hothers _ := by
    refine ⟨trivial, ?_⟩
    funext node
    have hsame : t.memory.get node.1.id = s.memory.get node.1.id := by
      refine memory_of_spared (fun phase k e he => ?_) h _ (RecordAction.id_mem_ids node.2)
      exact apart e (hothers phase k e he)
    rw [RecordAction.recorded, RecordAction.recorded, hsame]
  told phase k s b t h _ := by
    obtain ⟨w, htell, rfl⟩ := tell_of_perform h
    refine ⟨trivial, ?_⟩
    funext node
    have hid : node.1.id ∈ g.ids := RecordAction.id_mem_ids node.2
    -- a start empties the records, every other hook adds to them
    by_cases hphase : phase = .start
    · subst hphase
      obtain ⟨u, emptied, refreshed⟩ := Decorator.tell_record_start htell
      have hnothing : (w.memory.get node.1.id).recorded = .empty := by
        rw [refreshed.recorded, emptied.memory, if_pos hid]
      change (w.memory.get node.1.id).recorded.toList = []
      rw [hnothing]
      rfl
    · obtain ⟨cs, ds, hrun⟩ := Decorator.tell_record hphase htell
      have hnoted := (RecordAction.recorded_ok distinct hrun).2 node.1 node.2
      have hcs : Visit.captures p ⟨.hook phase k (.record g), s, .ok b
          ((Session.observing ε α).set w s)⟩ = cs :=
        (captures_eq hphase rfl).trans (congrArg Prod.fst hrun)
      change (w.memory.get node.1.id).recorded.toList = _
      rw [hnoted]
      cases phase with
      | start => exact absurd rfl hphase
      | iteration | stop =>
        change _ = _ ++ node.1.entries (Capture.valuesOf (Visit.captures p _))
        rw [hcs]
        rfl

omit [Scalar α] in
theorem start_notin_beats {n : Nat} {m : Phase × Nat} (h : m ∈ beats n) :
    m.1 ≠ .start ∧ (m.1 = .iteration → 0 < m.2) := by
  rcases List.mem_append.mp h with h | h
  · obtain ⟨k, hk, rfl⟩ := List.mem_map.mp h
    have hpos : 1 ≤ k := (List.mem_range'_1.mp hk).1
    exact ⟨nofun, fun _ => hpos⟩
  · rw [List.mem_singleton.mp h]
    exact ⟨nofun, nofun⟩

theorem foldl_noting {ws : List (Visit ε α)} {noted : {b // b ∈ g.nodes} → List (Datum α)}
    (h : ∀ v ∈ ws, ∃ phase k, phase ≠ .start ∧ v.call = .hook phase k (.record g))
    (b : {b // b ∈ g.nodes}) :
    ws.foldl (noting p g) noted b = noted b ++ ws.flatMap fun v => b.1.entries (v.values p) := by
  induction ws generalizing noted with
  | nil => exact (List.append_nil _).symm
  | cons v ws ih =>
    obtain ⟨⟨phase, k, hphase, hcall⟩, hrest⟩ := List.forall_mem_cons.mp h
    have hstep : noting p g noted v b = noted b ++ b.1.entries (v.values p) := by
      rw [noting, hcall]
      cases phase with
      | start => exact absurd rfl hphase
      | iteration | stop => rfl
    rw [List.foldl_cons, ih hrest, hstep, List.flatMap_cons, List.append_assoc]

end Noted

/-- The records that come from the calls `ws` among `vs`, one for each of some moments: the record
captured in these calls, and its leaves and groups have kept what they made of them. -/
structure Logged (p : Problem ε α) (g : RecordAction) (moments : List (Phase × Nat))
    (vs ws : List (Visit ε α)) (t : Session ε α) : Prop where
  sublist : ws.Sublist vs
  calls : ws.map Visit.call = hooksAt (.record g) moments
  captured : ∀ v ∈ ws, ∀ phase k, v.call = .hook phase k (.record g) → v.Captured p g phase k
  recorded : ∀ b ∈ g.nodes, b.recorded t.memory = ws.flatMap fun v => b.entries (v.values p)

theorem logged_of_foldl {moments : List (Phase × Nat)} {vs ws : List (Visit ε α)}
    {noted : {b // b ∈ g.nodes} → List (Datum α)} (distinct : g.Distinct)
    (returned : ∀ v ∈ vs, ∃ b u, v.call.perform p o solver v.before = .ok b u)
    (hsub : ws.Sublist vs) (hcalls : ws.map Visit.call = hooksAt (.record g) ((.start, 0) :: moments))
    (hmoments : ∀ m ∈ moments, m.1 ≠ .start ∧ (m.1 = .iteration → 0 < m.2))
    (hend : (fun b : {b // b ∈ g.nodes} => b.1.recorded t.memory) =
      ws.foldl (noting p g) noted) : ∃ ws', Logged p g moments vs ws' t := by
  obtain ⟨v₀, ws, rfl, hstart, hrest⟩ := List.map_eq_cons_iff.mp hcalls
  have hsublist : ws.Sublist vs := (List.sublist_cons_self v₀ ws).trans hsub
  have hheard : ∀ v ∈ ws, ∃ phase k, (phase ≠ .start ∧ (phase = .iteration → 0 < k)) ∧
      v.call = .hook phase k (.record g) := by
    intro v hv
    have hmem : v.call ∈ ws.map Visit.call := List.mem_map_of_mem hv
    rw [hrest] at hmem
    obtain ⟨m, hm, hsame⟩ := List.mem_map.mp hmem
    exact ⟨m.1, m.2, hmoments m hm, hsame.symm⟩
  refine ⟨ws, hsublist, hrest, fun v hv phase k hcall => ?_, fun b hb => ?_⟩
  · obtain ⟨phase', k', ⟨hphase, hk⟩, hcall'⟩ := hheard v hv
    cases hcall.symm.trans hcall'
    obtain ⟨b, u, hu⟩ := returned v (hsublist.subset hv)
    exact captured_of_visit distinct hphase hk hcall hu
  · have hb' := congrFun hend ⟨b, hb⟩
    have hlater : ∀ v ∈ ws, ∃ phase k, phase ≠ .start ∧ v.call = .hook phase k (.record g) := by
      intro v hv
      obtain ⟨phase, k, ⟨hphase, -⟩, hcall⟩ := hheard v hv
      exact ⟨phase, k, hphase, hcall⟩
    rw [List.foldl_cons, foldl_noting hlater] at hb'
    have hnothing : noting p g noted v₀ ⟨b, hb⟩ = [] := by
      rw [noting, hstart]
    rw [hnothing, List.nil_append] at hb'
    exact hb'

theorem logged_of_solve (apart : chain.Pairwise Decorator.Apart) (hg : .record g ∈ chain)
    (distinct : g.Distinct) {fuel n : Nat} (h : solve fuel p o chain solver s = .ok () t)
    (hn : t.state.iteration = .whole (Int.ofNat n)) :
    ∃ ws, Logged p g (beats n) (history fuel p o chain solver s) ws t := by
  obtain ⟨pre, post, rfl, hpre, hpost⟩ := Decorator.exists_split apart hg
  have spared : ∀ e ∈ pre ++ post, e.Spares g.ids := List.forall_mem_append.mpr ⟨hpre, hpost⟩
  obtain ⟨s₁, n', ws, -, hn', hsub, hcalls, -, hend⟩ :=
    (tally_noting distinct spared).solve h fun _ _ => trivial
  cases hn.symm.trans hn'
  obtain ⟨_, -, linked⟩ := linked_of_solve h
  have returned : ∀ v ∈ history fuel p o (pre ++ .record g :: post) solver s,
      ∃ b u, v.call.perform p o solver v.before = .ok b u := by
    intro v hv
    rw [← outcome_of_mem_history hv]
    exact linked.returned v hv
  exact logged_of_foldl distinct returned hsub hcalls (fun m hm => start_notin_beats hm) hend

/-- The exact contents of a record. Its leaves keep the values they gave when they acted, in the
order in which they gave them, and its groups one tuple for each moment at which one of their leaves
acted. -/
theorem log_law (apart : chain.Pairwise Decorator.Apart) (hg : .record g ∈ chain)
    (distinct : g.Distinct) {fuel : Nat} (h : solve fuel p o chain solver s = .ok () t) :
    ∃ n ws, t.state.iteration = .whole (Int.ofNat n) ∧
      Logged p g (beats n) (history fuel p o chain solver s) ws t := by
  obtain ⟨n, hn, -⟩ := calls_of_solve h
  obtain ⟨ws, logged⟩ := logged_of_solve apart hg distinct h hn
  exact ⟨n, ws, hn, logged⟩

def ledger : RecordAction :=
  .group 0 [.leaf 1 (.quantity .iteration) .always,
    .every .everySecond (.group 2 [.leaf 3 (.quantity .iterate) .always,
      .leaf 4 (.quantity .stop) .onlyAtStop])]

theorem log_law_counting :
    ∃ t n ws, solve 3 line twice [.plain, .record ledger] counting origin = .ok () t ∧
      (ledger.recorded t.memory).length = 3 ∧ t.state.iteration = .whole (Int.ofNat n) ∧
      Logged line ledger (beats n)
        (history 3 line twice [.plain, .record ledger] counting origin) ws t := by
  obtain ⟨_, t, ht, hlength⟩ : ∃ b t, solve 3 line twice [.plain, .record ledger] counting origin =
      .ok b t ∧ (ledger.recorded t.memory).length = 3 := by
    decide +kernel
  have apart : ([.plain, .record ledger] : List (Decorator Unit Float)).Pairwise
      Decorator.Apart := by
    refine List.pairwise_pair.mpr ⟨?_, ?_⟩
    · exact fun i _ => List.not_mem_nil
    · exact fun i hi => absurd hi List.not_mem_nil
  have distinct : ledger.Distinct := by decide
  have hledger : .record ledger ∈ ([.plain, .record ledger] : List (Decorator Unit Float)) :=
    List.mem_cons_of_mem _ (List.mem_singleton_self _)
  obtain ⟨n, ws, hiteration, logged⟩ := log_law apart hledger distinct ht
  exact ⟨t, n, ws, ht, hlength, hiteration, logged⟩

end Geodescent.Solver
