import Geodescent.Proofs.Observation.Record.Capture

/-! What a run of a record action does. It asks exactly the leaves that are due and leaves all other
actions alone (`run_ok`). Where every action occurs once, leaves keep their values and groups the
tuples made of them (`recorded_ok`), also before a run that fails (`leads_run`). -/
namespace Geodescent.RecordAction
variable {ε α : Type} [Scalar α]

section Ran
variable {t : Moment ε α} {o o' u : Observing ε α} {cs cs' : List (Capture ε α)}
  {ds : List (Datum α)}

/-- The leaves that have a value to give at a moment: nothing is captured before the first
iteration. -/
def Due (ℓ : Leaf RecordKind) (k : Int) (stopped : Bool) : Prop :=
  (stopped = false → 0 < k) ∧ ℓ.Acts k stopped

instance (ℓ : Leaf RecordKind) (k : Int) (stopped : Bool) : Decidable (Due ℓ k stopped) :=
  inferInstanceAs (Decidable (_ ∧ _))

theorem due_under {ℓ : Leaf RecordKind} {cadence : Cadence} {k : Int} {stopped : Bool} :
    Due (ℓ.under cadence) k stopped ↔ Due ℓ k stopped ∧ (stopped = false → cadence.Hits k) := by
  rw [Due, Leaf.acts_under, ← and_assoc, Due]

/-- What running actions with the leaves `ℓs` and the numbers `ids` does when it returns. -/
structure Ran (t : Moment ε α) (ℓs : List (Leaf RecordKind)) (ids : List Nat)
    (o : Observing ε α) (cs : List (Capture ε α)) (o' : Observing ε α) : Prop where
  sites : cs.map Capture.site = Leaf.sites (fun ℓ => Due ℓ t.iteration t.stopped) ℓs
  values : ∀ c ∈ cs, ∃ d u, c.outcome = .ok d u
  console : o'.console = o.console
  env : t.problem.Undisturbing → o'.env = o.env
  kept : Observing.Kept t.state.x t.stopped (watchersOf ℓs) ids o o'

namespace Ran
variable {ℓs ℓs' : List (Leaf RecordKind)} {ids ids' : List Nat}

omit [Scalar α] in
theorem nil (t : Moment ε α) (o : Observing ε α) : Ran t [] [] o [] o where
  sites := rfl
  values _ hc := absurd hc List.not_mem_nil
  console := rfl
  env _ := rfl
  kept := .refl _ _ o

omit [Scalar α] in
theorem append (h : Ran t ℓs ids o cs u) (g : Ran t ℓs' ids' u cs' o') :
    Ran t (ℓs ++ ℓs') (ids ++ ids') o (cs ++ cs') o' where
  sites := by rw [List.map_append, h.sites, g.sites, Leaf.sites_append]
  values := List.forall_mem_append.mpr ⟨h.values, g.values⟩
  console := g.console.trans h.console
  env hp := (g.env hp).trans (h.env hp)
  kept := by
    rw [watchersOf_append]
    exact h.kept.append g.kept

omit [Scalar α] in
theorem id_mem (h : Ran t ℓs ids o cs o') (hids : ∀ ℓ ∈ ℓs, ℓ.id ∈ ids) :
    ∀ c ∈ cs, c.id ∈ ids := by
  intro c hc
  have hsite : c.site ∈ cs.map Capture.site := List.mem_map_of_mem hc
  rw [h.sites] at hsite
  obtain ⟨ℓ, hℓ, hsame⟩ := Leaf.exists_of_mem_sites hsite
  have hid : ℓ.id = c.id := congrArg Prod.fst hsame
  exact hid ▸ hids ℓ hℓ

omit [Scalar α] in
theorem valuesOf_eq (h : Ran t ℓs ids o cs o') (distinct : (ℓs.map Leaf.id).Nodup)
    {ℓ : Leaf RecordKind} (hℓ : ℓ ∈ ℓs) :
    (Due ℓ t.iteration t.stopped → ∃ c ∈ cs, c.site = (ℓ.id, ℓ.kind) ∧
      ∃ d u, c.outcome = .ok d u ∧ Capture.valuesOf cs ℓ.id = [d]) ∧
    (¬ Due ℓ t.iteration t.stopped → Capture.valuesOf cs ℓ.id = []) := by
  have hsites : (cs.filter fun c => c.id = ℓ.id).map Capture.site =
      if Due ℓ t.iteration t.stopped then [(ℓ.id, ℓ.kind)] else [] := by
    have hswap : (cs.filter fun c => c.id = ℓ.id).map Capture.site =
        (cs.map Capture.site).filter fun site => site.1 = ℓ.id := by
      rw [List.filter_map]
      rfl
    rw [hswap, h.sites, Leaf.sites_filter_id distinct hℓ]
  refine ⟨fun hdue => ?_, fun hdue => ?_⟩
  · rw [if_pos hdue] at hsites
    obtain ⟨c, hc, hsite⟩ := List.map_eq_singleton_iff.mp hsites
    have hmem : c ∈ cs := (List.mem_filter.mp (hc ▸ List.mem_singleton_self c)).1
    obtain ⟨d, u, houtcome⟩ := h.values c hmem
    refine ⟨c, hmem, hsite, d, u, houtcome, ?_⟩
    rw [Capture.valuesOf, hc]
    simp [Capture.value?, houtcome]
  · rw [if_neg hdue] at hsites
    rw [Capture.valuesOf, List.map_eq_nil_iff.mp hsites, List.filterMap_nil]

end Ran

theorem runLeaf_ok {id : Nat} {kind : RecordKind} {cadence : Cadence}
    (h : Narrated.runLeaf t id kind cadence o = (cs, .ok ds o')) :
    ∃ mid, Observing.Refreshed t.state.x
        (if t.stopped then [] else (leaf id kind cadence).watchers) mid o' ∧
      ((Due ⟨id, kind, cadence, []⟩ t.iteration t.stopped ∧ ∃ d u, capture t id kind o = .ok d u ∧
          mid = Observing.record id d u ∧ ds = [d] ∧ cs = [⟨id, kind, o, .ok d u⟩]) ∨
        (¬ Due ⟨id, kind, cadence, []⟩ t.iteration t.stopped ∧ mid = o ∧ ds = [] ∧ cs = [])) := by
  obtain ⟨captured, mid, fs, gs, hcaptured, hrest, rfl⟩ := Scribe.bind_eq_ok_iff.mp h
  obtain ⟨_, u, hrefresh, hpure⟩ := Scribe.tacit_bind_eq_ok_iff.mp hrest
  obtain ⟨rfl, rfl, rfl⟩ := Scribe.pure_eq_ok_iff.mp hpure
  refine ⟨mid, .unless_stopped (refreshLeaf_ok t id kind cadence mid) hrefresh, ?_⟩
  rw [List.append_nil]
  unfold Narrated.keep at hcaptured
  by_cases hdue : Due ⟨id, kind, cadence, []⟩ t.iteration t.stopped
  · rw [if_pos (leafActs_iff.mpr hdue)] at hcaptured
    obtain ⟨d, u, es, _, hcapture, hkeep, rfl⟩ := Scribe.bind_eq_ok_iff.mp hcaptured
    obtain ⟨hd, rfl⟩ := Scribe.entering_eq_ok_iff.mp hcapture
    obtain ⟨_, _, hmodify, hpure⟩ := Scribe.tacit_bind_eq_ok_iff.mp hkeep
    cases hmodify
    obtain ⟨rfl, rfl, rfl⟩ := Scribe.pure_eq_ok_iff.mp hpure
    exact .inl ⟨hdue, d, u, hd, rfl, rfl, rfl⟩
  · have hacts : ¬ leafActs cadence t.iteration t.stopped = true := fun hacts =>
      hdue (leafActs_iff.mp hacts)
    rw [if_neg hacts] at hcaptured
    obtain ⟨rfl, rfl, rfl⟩ := Scribe.pure_eq_ok_iff.mp hcaptured
    exact .inr ⟨hdue, rfl, rfl, rfl⟩

omit [Scalar α] in
theorem enter_eq (id : Nat) (captured : List (Datum α)) (o : Observing ε α) :
    ∃ o', enter id captured o = .ok (tuple captured) o' ∧ o'.console = o.console ∧
      o'.env = o.env ∧ (∀ i ≠ id, o'.memory.get i = o.memory.get i) ∧
      (o'.memory.get id).previous = (o.memory.get id).previous ∧
      (o'.memory.get id).recorded.toList = (o.memory.get id).recorded.toList ++ tuple captured := by
  cases captured with
  | nil => exact ⟨o, rfl, rfl, rfl, fun _ _ => rfl, rfl, (List.append_nil _).symm⟩
  | cons d rest =>
    refine ⟨_, rfl, rfl, rfl, fun i hi => ?_, ?_, ?_⟩
    · rw [Observing.memory_record, if_neg hi.symm]
    · rw [Observing.memory_record, if_pos rfl]
    · rw [Observing.memory_record, if_pos rfl, Chronicle.toList_push]
      rfl

theorem ran_leaf {id : Nat} {kind : RecordKind} {cadence : Cadence}
    (h : Narrated.runLeaf t id kind cadence o = (cs, .ok ds o')) :
    Ran t (leaf id kind cadence).leaves [id] o cs o' := by
  obtain ⟨mid, refreshed, hcases⟩ := runLeaf_ok h
  have hkept : Observing.Kept t.state.x t.stopped (leaf id kind cadence).watchers [id] mid o' :=
    .of_refreshed (watchers_subset_ids _) refreshed
  rcases hcases with ⟨hdue, d, u, hd, rfl, rfl, rfl⟩ | ⟨hdue, rfl, rfl, rfl⟩
  · obtain ⟨hmemory, hconsole, henv⟩ := capture_ok hd
    refine ⟨?_, ?_, refreshed.console.trans hconsole, fun hp => refreshed.env.trans (henv hp),
      hkept.of_same (fun i hi => ?_) fun i => ?_⟩
    · simp [Leaf.sites, leaves, hdue, Capture.site]
    · intro c hc
      rw [List.mem_singleton.mp hc]
      exact ⟨d, u, rfl⟩
    · have hne : id ≠ i := fun h => hi (h ▸ List.mem_singleton_self id)
      rw [Observing.memory_record, if_neg hne, hmemory]
    · rw [Observing.memory_record, hmemory]
      split
      · rfl
      · rfl
  · refine ⟨?_, fun _ hc => absurd hc List.not_mem_nil, refreshed.console, fun _ => refreshed.env,
      hkept⟩
    simp [Leaf.sites, leaves, hdue]

theorem ran_each {as : List RecordAction}
    (hall : ∀ a ∈ as, ∀ {o cs ds o'}, Narrated.run t a o = (cs, .ok ds o') →
      Ran t a.leaves a.ids o cs o')
    (h : Narrated.runEach t as o = (cs, .ok ds o')) :
    Ran t (leavesEach as) (idsEach as) o cs o' := by
  induction as generalizing o cs ds with
  | nil =>
    rw [Narrated.runEach] at h
    obtain ⟨-, rfl, rfl⟩ := Scribe.pure_eq_ok_iff.mp h
    exact .nil t _
  | cons a as ih =>
    obtain ⟨first, u, cs₁, _, ha, hrest, rfl⟩ := Scribe.bind_eq_ok_iff.mp h
    obtain ⟨rest, w, cs₂, _, has, hpure, rfl⟩ := Scribe.bind_eq_ok_iff.mp hrest
    obtain ⟨-, rfl, rfl⟩ := Scribe.pure_eq_ok_iff.mp hpure
    have hfirst := hall a List.mem_cons_self ha
    have hothers := ih (fun b hb => hall b (List.mem_cons_of_mem a hb)) has
    rw [List.append_nil, leavesEach, idsEach_cons]
    exact hfirst.append hothers

theorem run_ok {a : RecordAction} (h : Narrated.run t a o = (cs, .ok ds o')) :
    Ran t a.leaves a.ids o cs o' := by
  induction a using induct generalizing o cs ds o' with
  | leaf id kind cadence =>
    rw [Narrated.run] at h
    exact ran_leaf h
  | group id members ih =>
    rw [Narrated.run] at h
    obtain ⟨captured, u, fs, _, hmembers, henter, rfl⟩ := Scribe.bind_eq_ok_iff.mp h
    obtain ⟨hentered, rfl⟩ := Scribe.tacit_eq_ok_iff.mp henter
    obtain ⟨w, hw, hconsole, henv, hothers, hprevious, -⟩ := enter_eq id captured u
    rw [hw] at hentered
    cases hentered
    -- the entry of the group touches only its own memory, so the members' account stands
    have ran := ran_each (fun a ha => ih a ha) hmembers
    rw [List.append_nil]
    refine ⟨ran.sites, ran.values, hconsole.trans ran.console, fun hp => henv.trans (ran.env hp),
      fun i hi => ?_, fun i => ?_⟩
    · rw [ids_group, List.mem_cons, not_or] at hi
      rw [hothers i hi.1, ran.kept.spares i hi.2]
    · rw [leaves_group, ← ran.kept.previous i]
      by_cases hi : i = id
      · rw [hi, hprevious]
      · rw [hothers i hi]
  | every cadence a ih =>
    rw [Narrated.run] at h
    have hwatchers : watchersOf (every cadence a).leaves = a.watchers :=
      watchersOf_under cadence a.leaves
    by_cases hpassed : t.stopped = false → cadence.Hits t.iteration
    · rw [if_pos (Cadence.passes_iff.mpr hpassed)] at h
      have ran := ih h
      refine ⟨ran.sites.trans (Leaf.sites_under fun ℓ => ?_).symm, ran.values, ran.console, ran.env,
        ?_⟩
      · rw [due_under, and_iff_left hpassed]
      · rw [hwatchers]
        exact ran.kept
    -- a wrapper that holds back leaves no leaf due, but all of them look at the point
    · rw [if_neg fun hlets => hpassed (Cadence.passes_iff.mp hlets)] at h
      obtain ⟨hstopped, hmissed⟩ := Classical.not_imp.mp hpassed
      obtain ⟨_, u, hrefresh, hpure⟩ := Scribe.tacit_bind_eq_ok_iff.mp h
      obtain ⟨-, rfl, rfl⟩ := Scribe.pure_eq_ok_iff.mp hpure
      obtain ⟨w, hw, refreshed⟩ := refresh_ok t a o
      rw [hw] at hrefresh
      cases hrefresh
      have hheld : Leaf.sites (fun ℓ => Due ℓ t.iteration t.stopped) (every cadence a).leaves = [] :=
        Leaf.sites_under_eq_nil fun ℓ hdue => Leaf.acts_of_wrapper_missed hstopped hmissed hdue.2
      refine ⟨hheld.symm, fun _ hc => absurd hc List.not_mem_nil, refreshed.console,
        fun _ => refreshed.env, ?_⟩
      rw [hwatchers]
      refine .of_refreshed (watchers_subset_ids a) ?_
      rw [hstopped]
      exact refreshed

end Ran

section Recorded
variable {t : Moment ε α} {o o' : Observing ε α} {cs cs' : List (Capture ε α)}
  {ds : List (Datum α)}

omit [Scalar α] in
theorem valuesOf_of_others {a : RecordAction} (h : ∀ c ∈ cs, c.id ∉ a.ids) {ℓ : Leaf RecordKind}
    (hℓ : ℓ ∈ a.leaves) : Capture.valuesOf cs ℓ.id = [] := by
  refine Capture.valuesOf_eq_nil fun hmem => ?_
  obtain ⟨c, hc, hid⟩ := List.mem_map.mp hmem
  exact h c hc (hid ▸ leaf_id_mem_ids hℓ)

omit [Scalar α] in
theorem entries_append_left {a : RecordAction} (h : ∀ c ∈ cs', c.id ∉ a.ids) :
    entries (Capture.valuesOf (cs ++ cs')) a = entries (Capture.valuesOf cs) a := by
  refine entries_congr fun ℓ hℓ => ?_
  rw [Capture.valuesOf_append, valuesOf_of_others h hℓ, List.append_nil]

omit [Scalar α] in
theorem entries_append_right {a : RecordAction} (h : ∀ c ∈ cs, c.id ∉ a.ids) :
    entries (Capture.valuesOf (cs ++ cs')) a = entries (Capture.valuesOf cs') a := by
  refine entries_congr fun ℓ hℓ => ?_
  rw [Capture.valuesOf_append, valuesOf_of_others h hℓ, List.nil_append]

/-- What a run that asked `cs` notes: every one of the actions `as` what it hands up. -/
def Noted (as : List RecordAction) (o : Observing ε α) (cs : List (Capture ε α))
    (o' : Observing ε α) : Prop :=
  ∀ a ∈ as, (o'.memory.get a.id).recorded.toList =
    (o.memory.get a.id).recorded.toList ++ entries (Capture.valuesOf cs) a

theorem noted_leaf {id : Nat} {kind : RecordKind} {cadence : Cadence}
    (h : Narrated.runLeaf t id kind cadence o = (cs, .ok ds o')) :
    ds = Capture.valuesOf cs id ∧
      (o'.memory.get id).recorded.toList = (o.memory.get id).recorded.toList ++ ds := by
  obtain ⟨mid, refreshed, ⟨-, d, u, hd, rfl, rfl, rfl⟩ | ⟨-, rfl, rfl, rfl⟩⟩ := runLeaf_ok h
  · refine ⟨by simp [Capture.valuesOf, Capture.value?], ?_⟩
    rw [refreshed.recorded, Observing.memory_record, if_pos rfl, Chronicle.toList_push,
      (capture_ok hd).1]
  · refine ⟨rfl, ?_⟩
    rw [refreshed.recorded, List.append_nil]

theorem noted_each {as : List RecordAction} (distinct : (idsEach as).Nodup)
    (hall : ∀ a ∈ as, a.Distinct → ∀ {o cs ds o'}, Narrated.run t a o = (cs, .ok ds o') →
      ds = entries (Capture.valuesOf cs) a ∧ Noted a.nodes o cs o')
    (h : Narrated.runEach t as o = (cs, .ok ds o')) :
    ds = entriesEach (Capture.valuesOf cs) as ∧ Noted (nodesEach as) o cs o' := by
  induction as generalizing o cs ds with
  | nil =>
    rw [Narrated.runEach] at h
    obtain ⟨rfl, rfl, rfl⟩ := Scribe.pure_eq_ok_iff.mp h
    exact ⟨rfl, fun _ hb => absurd hb List.not_mem_nil⟩
  | cons a as ih =>
    obtain ⟨ha, has, hdisjoint⟩ := distinct_cons distinct
    obtain ⟨first, u, cs₁, _, hfirst, hthen, rfl⟩ := Scribe.bind_eq_ok_iff.mp h
    obtain ⟨rest, w, cs₂, _, hrest, hpure, rfl⟩ := Scribe.bind_eq_ok_iff.mp hthen
    obtain ⟨rfl, rfl, rfl⟩ := Scribe.pure_eq_ok_iff.mp hpure
    rw [List.append_nil]
    have ran₁ : Ran t a.leaves a.ids o cs₁ u := run_ok hfirst
    have ran₂ : Ran t (leavesEach as) (idsEach as) u cs₂ o' := ran_each (fun _ _ => run_ok) hrest
    obtain ⟨rfl, hnoted₁⟩ := hall a List.mem_cons_self ha hfirst
    obtain ⟨rfl, hnoted₂⟩ := ih has (fun b hb => hall b (List.mem_cons_of_mem a hb)) hrest
    -- the leaves that the two parts asked belong to different actions
    have hids₁ : ∀ c ∈ cs₁, c.id ∉ idsEach as := fun c hc =>
      hdisjoint c.id (ran₁.id_mem (fun _ => leaf_id_mem_ids) c hc)
    have hids₂ : ∀ c ∈ cs₂, c.id ∉ a.ids := fun c hc hmem =>
      hdisjoint c.id hmem (ran₂.id_mem (fun _ => leaf_id_mem_idsEach) c hc)
    refine ⟨?_, List.forall_mem_append.mpr ⟨fun b hb => ?_, fun b hb => ?_⟩⟩
    · have hrest : entriesEach (Capture.valuesOf (cs₁ ++ cs₂)) as =
          entriesEach (Capture.valuesOf cs₂) as := entriesEach_congr fun b hb =>
        entries_append_right fun c hc hmem => hids₁ c hc (mem_idsEach.mpr ⟨b, hb, hmem⟩)
      rw [entriesEach, entries_append_left hids₂, hrest]
    · have hb' : b.id ∉ idsEach as := hdisjoint b.id (id_mem_ids hb)
      have hown : entries (Capture.valuesOf (cs₁ ++ cs₂)) b = entries (Capture.valuesOf cs₁) b :=
        entries_append_left fun c hc hmem => hids₂ c hc (ids_subset_of_mem_nodes hb hmem)
      rw [hown, ran₂.kept.spares b.id hb', hnoted₁ b hb]
    · have hb' : b.id ∉ a.ids := fun hmem => hdisjoint b.id hmem (id_mem_idsEach hb)
      have hown : entries (Capture.valuesOf (cs₁ ++ cs₂)) b = entries (Capture.valuesOf cs₂) b := by
        refine entries_append_right fun c hc hmem => hids₁ c hc ?_
        obtain ⟨d, hd, hb⟩ := mem_nodesEach.mp hb
        exact mem_idsEach.mpr ⟨d, hd, ids_subset_of_mem_nodes hb hmem⟩
      rw [hown, ← ran₁.kept.spares b.id hb', hnoted₂ b hb]

theorem recorded_ok {a : RecordAction} (distinct : a.Distinct)
    (h : Narrated.run t a o = (cs, .ok ds o')) :
    ds = entries (Capture.valuesOf cs) a ∧ Noted a.nodes o cs o' := by
  induction a using induct generalizing o cs ds o' with
  | leaf id kind cadence =>
    rw [Narrated.run] at h
    obtain ⟨rfl, hrecorded⟩ := noted_leaf h
    refine ⟨rfl, fun b hb => ?_⟩
    rw [List.mem_singleton.mp hb]
    exact hrecorded
  | group id members ih =>
    rw [Narrated.run] at h
    obtain ⟨hid, hmembers⟩ := distinct_group distinct
    obtain ⟨captured, u, fs, _, heach, henter, rfl⟩ := Scribe.bind_eq_ok_iff.mp h
    obtain ⟨hentered, rfl⟩ := Scribe.tacit_eq_ok_iff.mp henter
    obtain ⟨w, hw, -, -, hothers, -, hown⟩ := enter_eq id captured u
    rw [hw] at hentered
    cases hentered
    have ran : Ran t (leavesEach members) (idsEach members) o fs u :=
      ran_each (fun _ _ => run_ok) heach
    obtain ⟨rfl, hnoted⟩ := noted_each hmembers (fun a ha da => ih a ha da) heach
    rw [List.append_nil]
    refine ⟨rfl, fun b hb => ?_⟩
    rcases List.mem_cons.mp hb with rfl | hb
    · have hbefore : u.memory.get id = o.memory.get id := ran.kept.spares id hid
      rw [hbefore] at hown
      exact hown
    -- the entry of the group is noted under another number
    · have hne : b.id ≠ id := fun heq => hid (heq ▸ id_mem_idsEach hb)
      rw [hothers b.id hne, hnoted b hb]
  | every cadence a ih =>
    rw [Narrated.run] at h
    split at h
    · exact ih distinct h
    · obtain ⟨_, u, hrefresh, hpure⟩ := Scribe.tacit_bind_eq_ok_iff.mp h
      obtain ⟨rfl, rfl, rfl⟩ := Scribe.pure_eq_ok_iff.mp hpure
      obtain ⟨w, hw, refreshed⟩ := refresh_ok t a o
      rw [hw] at hrefresh
      cases hrefresh
      have hnothing : ∀ b : RecordAction,
          entries (Capture.valuesOf ([] : List (Capture ε α))) b = [] :=
        fun b => entries_eq_nil_iff.mpr fun _ _ => rfl
      refine ⟨(hnothing _).symm, fun b hb => ?_⟩
      rw [refreshed.recorded, hnothing, List.append_nil]

end Recorded

section Asked
variable {t : Moment ε α} {m : Nat → ActionMemory α}

/-- A question that one of the leaves `ℓs` is asked, at a moment at which its own memory is still the
one of `m`. -/
structure Asked (t : Moment ε α) (m : Nat → ActionMemory α) (ℓs : List (Leaf RecordKind))
    (c : Capture ε α) : Prop where
  outcome : c.outcome = capture t c.id c.kind c.before
  leaf : ∃ ℓ ∈ ℓs, (ℓ.id, ℓ.kind) = c.site
  memory : c.before.memory.get c.id = m c.id

theorem Asked.mono {ℓs ℓs' : List (Leaf RecordKind)} {c : Capture ε α} (h : Asked t m ℓs c)
    (hℓs : ∀ ℓ ∈ ℓs, ∃ ℓ' ∈ ℓs', (ℓ'.id, ℓ'.kind) = (ℓ.id, ℓ.kind)) : Asked t m ℓs' c := by
  obtain ⟨ℓ, hℓ, hsite⟩ := h.leaf
  obtain ⟨ℓ', hℓ', hsame⟩ := hℓs ℓ hℓ
  exact ⟨h.outcome, ⟨ℓ', hℓ', hsame.trans hsite⟩, h.memory⟩

theorem leads_leaf (id : Nat) (kind : RecordKind) (cadence : Cadence) :
    Scribe.Leads (Narrated.runLeaf t id kind cadence) (fun o => o.memory.get id = m id)
      (Asked t m (leaf id kind cadence).leaves) fun _ => True := by
  have hkeep : Scribe.Leads (Narrated.keep t id kind cadence) (fun o => o.memory.get id = m id)
      (Asked t m (leaf id kind cadence).leaves) fun _ => True := by
    unfold Narrated.keep
    split
    · refine .bind (.entering (fun o ho => ?_) fun _ _ _ _ _ => trivial) fun d => ?_
      · exact ⟨rfl, ⟨_, List.mem_singleton_self _, rfl⟩, ho⟩
      · exact .bind (.tacit fun _ _ _ h _ => h) fun _ => .pure [d]
    · exact (Scribe.Leads.pure []).forget (fun _ ho => ho) fun _ hc => hc
  exact .bind hkeep fun captured => .bind (.tacit fun _ _ _ h _ => h) fun _ => .pure captured

theorem leads_each {as : List RecordAction} (distinct : (idsEach as).Nodup)
    (hall : ∀ a ∈ as, a.Distinct → Scribe.Leads (Narrated.run t a)
      (fun o => ∀ i ∈ a.ids, o.memory.get i = m i) (Asked t m a.leaves) fun _ => True) :
    Scribe.Leads (Narrated.runEach t as) (fun o => ∀ i ∈ idsEach as, o.memory.get i = m i)
      (Asked t m (leavesEach as)) fun _ => True := by
  induction as with
  | nil => exact (Scribe.Leads.pure []).forget (fun _ ho => ho) fun _ hc => hc
  | cons a as ih =>
    obtain ⟨ha, has, hdisjoint⟩ := distinct_cons distinct
    have hrest := ih has fun b hb => hall b (List.mem_cons_of_mem a hb)
    have hfirst : Scribe.Leads (Narrated.run t a)
        (fun o => ∀ i ∈ idsEach (a :: as), o.memory.get i = m i)
        (Asked t m (leavesEach (a :: as))) fun o => ∀ i ∈ idsEach as, o.memory.get i = m i := by
      refine (hall a List.mem_cons_self ha).imp (fun o ho i hi => ?_) (fun c hc => ?_)
        fun o cs ds o' ho h i hi => ?_
      · rw [idsEach_cons, List.forall_mem_append] at ho
        exact ho.1 i hi
      · exact hc.mono fun ℓ hℓ => ⟨ℓ, List.mem_append_left _ hℓ, rfl⟩
      · have hi' : i ∉ a.ids := fun hmem => hdisjoint i hmem hi
        rw [idsEach_cons, List.forall_mem_append] at ho
        rw [(run_ok h).kept.spares i hi', ho.2 i hi]
    refine .bind hfirst fun first => .bind (hrest.forget (fun _ ho => ho) fun c hc => ?_)
      fun rest => .pure (first ++ rest)
    exact hc.mono fun ℓ hℓ => ⟨ℓ, List.mem_append_right _ hℓ, rfl⟩

theorem leads_run {a : RecordAction} (distinct : a.Distinct) :
    Scribe.Leads (Narrated.run t a) (fun o => ∀ i ∈ a.ids, o.memory.get i = m i)
      (Asked t m a.leaves) fun _ => True := by
  induction a using induct with
  | leaf id kind cadence =>
    rw [Narrated.run]
    refine (leads_leaf id kind cadence).forget (fun o ho => ?_) fun _ hc => hc
    exact ho id (List.mem_singleton_self id)
  | group id members ih =>
    rw [Narrated.run]
    obtain ⟨-, hmembers⟩ := distinct_group distinct
    refine .bind ((leads_each hmembers ih).forget (fun o ho i hi => ?_) fun _ hc => hc)
      fun captured => .tacit fun _ _ _ h _ => h
    exact ho i (List.mem_cons_of_mem id hi)
  | every cadence a ih =>
    rw [Narrated.run]
    split
    · refine (ih distinct).forget (fun _ ho => ho) fun c hc => ?_
      exact hc.mono fun ℓ hℓ => ⟨ℓ.under cadence, List.mem_map_of_mem hℓ, rfl⟩
    · exact .bind (.tacit fun _ _ _ _ _ => trivial) fun _ => .pure []

end Asked

end Geodescent.RecordAction
