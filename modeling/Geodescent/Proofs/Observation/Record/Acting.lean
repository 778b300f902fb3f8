import Geodescent.Manifold.Euclidean
import Geodescent.Proofs.Observation.Record.Effect

/-! Which calls of a record tree capture something. Asking a tree whether it should act, calling it
and refreshing it are three recursions of their own, and a call never asks a group or a wrapper. Still
a call adds an entry to exactly those actions that should act below wrappers that all should, and
its watchers come to remember the point either way: `acting_law`. -/
namespace Geodescent.RecordAction
variable {ε α : Type} {a b : RecordAction} {ws : List RecordAction} {k : Int} {stopped : Bool}

section ShouldAct
variable {cadence : Cadence}

theorem shouldAct_leaf {id : Nat} {kind : RecordKind} :
    shouldAct k stopped (leaf id kind cadence) = true ↔ Due ⟨id, kind, cadence, []⟩ k stopped := by
  rw [shouldAct]
  exact leafActs_iff

theorem anyShouldAct_iff {as : List RecordAction} :
    anyShouldAct k stopped as = true ↔ ∃ a ∈ as, shouldAct k stopped a = true := by
  induction as with
  | nil => simp [anyShouldAct]
  | cons a as ih => simp [anyShouldAct, ih]

theorem shouldAct_group {id : Nat} {members : List RecordAction} :
    shouldAct k stopped (group id members) = true ↔
      ∃ a ∈ members, shouldAct k stopped a = true := by
  rw [shouldAct]
  exact anyShouldAct_iff

theorem shouldAct_every : shouldAct k stopped (every cadence a) = true ↔
    (stopped = false → cadence.Hits k) ∧ shouldAct k stopped a = true := by
  rw [shouldAct]
  cases stopped with
  | true => simp
  | false => simp [Cadence.hits_iff]

theorem shouldAct_iff : shouldAct k stopped a = true ↔ ∃ ℓ ∈ a.leaves, Due ℓ k stopped := by
  induction a using induct with
  | leaf id kind cadence => simp [shouldAct_leaf, leaves]
  | group id members ih =>
    rw [shouldAct_group, leaves_group]
    constructor
    · rintro ⟨a, ha, hacts⟩
      obtain ⟨ℓ, hℓ, hdue⟩ := (ih a ha).mp hacts
      exact ⟨ℓ, mem_leavesEach.mpr ⟨a, ha, hℓ⟩, hdue⟩
    · rintro ⟨ℓ, hℓ, hdue⟩
      obtain ⟨a, ha, hℓ⟩ := mem_leavesEach.mp hℓ
      exact ⟨a, ha, (ih a ha).mpr ⟨ℓ, hℓ, hdue⟩⟩
  | every cadence a ih =>
    rw [shouldAct_every, ih, leaves_every]
    constructor
    · rintro ⟨hpassed, ℓ, hℓ, hdue⟩
      exact ⟨ℓ.under cadence, List.mem_map_of_mem hℓ, due_under.mpr ⟨hdue, hpassed⟩⟩
    · rintro ⟨ℓ', hℓ', hdue⟩
      obtain ⟨ℓ, hℓ, rfl⟩ := List.mem_map.mp hℓ'
      obtain ⟨hdue, hpassed⟩ := due_under.mp hdue
      exact ⟨hpassed, ℓ, hℓ, hdue⟩

end ShouldAct

/-- An action `b` stands in a tree below the wrappers `ws`, the nearest one first. Wrappers are
actions too, whose entries are those of the action they wrap. -/
inductive Stands : RecordAction → List RecordAction → RecordAction → Prop
  | here (a : RecordAction) : Stands a [] a
  | member {id : Nat} {members : List RecordAction} {a : RecordAction} {ws : List RecordAction}
      {b : RecordAction} : a ∈ members → Stands a ws b → Stands (group id members) ws b
  | wrapped {cadence : Cadence} {a : RecordAction} {ws : List RecordAction} {b : RecordAction} :
      Stands a ws b → Stands (every cadence a) (ws ++ [every cadence a]) b

/-- An action and all wrappers above it should act. -/
def Called (k : Int) (stopped : Bool) (ws : List RecordAction) (b : RecordAction) : Prop :=
  ∀ a ∈ b :: ws, shouldAct k stopped a = true

namespace Stands

theorem nodes_subset (h : Stands a ws b) : b.nodes ⊆ a.nodes := by
  induction h with
  | here a => exact List.Subset.refl _
  | member ha _ ih =>
    exact fun n hn => List.mem_cons_of_mem _ (mem_nodesEach.mpr ⟨_, ha, ih hn⟩)
  | wrapped _ ih => exact ih

theorem id_mem_ids (h : Stands a ws b) : b.id ∈ a.ids := by
  obtain ⟨n, hn, hid⟩ := List.mem_map.mp (own_id_mem_ids b)
  exact hid ▸ RecordAction.id_mem_ids (h.nodes_subset hn)

theorem shouldAct (h : Stands a ws b) (called : Called k stopped ws b) :
    a.shouldAct k stopped = true := by
  induction h with
  | here a => exact called a List.mem_cons_self
  | member ha _ ih => exact shouldAct_group.mpr ⟨_, ha, ih called⟩
  | @wrapped cadence a ws b _ _ =>
    exact called (every cadence a) (List.mem_cons_of_mem b (List.mem_append_right ws
      (List.mem_singleton_self _)))

theorem due_iff (h : Stands a ws b) {ℓ : Leaf RecordKind} (hℓ : ℓ ∈ b.leaves) :
    ∃ ℓ' ∈ a.leaves, ℓ'.id = ℓ.id ∧ ℓ'.kind = ℓ.kind ∧ ∀ k stopped, Due ℓ' k stopped ↔
      Due ℓ k stopped ∧ ∀ w ∈ ws, w.shouldAct k stopped = true := by
  induction h with
  | here a => exact ⟨ℓ, hℓ, rfl, rfl, by simp⟩
  | member ha _ ih =>
    obtain ⟨ℓ', hℓ', hsame⟩ := ih hℓ
    exact ⟨ℓ', mem_leavesEach.mpr ⟨_, ha, hℓ'⟩, hsame⟩
  | @wrapped cadence a ws b _ ih =>
    obtain ⟨ℓ', hℓ', hid, hkind, hdue⟩ := ih hℓ
    refine ⟨ℓ'.under cadence, List.mem_map_of_mem hℓ', hid, hkind, fun k stopped => ?_⟩
    rw [due_under, List.forall_mem_append, List.forall_mem_singleton, shouldAct_every, hdue k stopped]
    constructor
    · rintro ⟨⟨hleaf, hws⟩, hpassed⟩
      -- the action that is wrapped should act, because one of its leaves is due
      exact ⟨hleaf, hws, hpassed, shouldAct_iff.mpr ⟨ℓ', hℓ', (hdue k stopped).mpr ⟨hleaf, hws⟩⟩⟩
    · rintro ⟨hleaf, hws, hpassed, -⟩
      exact ⟨⟨hleaf, hws⟩, hpassed⟩

end Stands

section Entries

theorem exists_node (b : RecordAction) : ∃ n ∈ b.nodes, n.id = b.id ∧
    ∀ values : Nat → List (Datum α), entries values n = entries values b := by
  induction b using induct with
  | leaf id kind cadence => exact ⟨_, List.mem_singleton_self _, rfl, fun _ => rfl⟩
  | group id members _ => exact ⟨_, List.mem_cons_self, rfl, fun _ => rfl⟩
  | every cadence a ih => exact ih

theorem length_tuple_le (ds : List (Datum α)) : (tuple ds).length ≤ 1 := by
  cases ds with
  | nil => exact Nat.zero_le 1
  | cons d ds => exact Nat.le_refl 1

theorem length_entries_le {values : Nat → List (Datum α)}
    (h : ∀ ℓ ∈ a.leaves, (values ℓ.id).length ≤ 1) : (entries values a).length ≤ 1 := by
  induction a using induct with
  | leaf id kind cadence => exact h ⟨id, kind, cadence, []⟩ (List.mem_singleton_self _)
  | group id members _ => exact length_tuple_le _
  | every cadence a ih =>
    exact ih fun ℓ hℓ => h (ℓ.under cadence) (List.mem_map_of_mem hℓ)

theorem entries_of_called {values : Nat → List (Datum α)}
    (hdue : ∀ ℓ ∈ a.leaves, Due ℓ k stopped → ∃ d, values ℓ.id = [d])
    (hidle : ∀ ℓ ∈ a.leaves, ¬ Due ℓ k stopped → values ℓ.id = []) (h : Stands a ws b) :
    (Called k stopped ws b → ∃ d, entries values b = [d]) ∧
      (¬ Called k stopped ws b → entries values b = []) := by
  constructor
  · intro called
    obtain ⟨hself, hwrappers⟩ := List.forall_mem_cons.mp called
    -- a group makes one tuple of any number of values, so only those of a leaf are counted
    have hlength : (entries values b).length ≤ 1 := by
      refine length_entries_le fun ℓ hℓ => ?_
      obtain ⟨ℓ', hℓ', hid, -⟩ := h.due_iff hℓ
      by_cases hacts : Due ℓ' k stopped
      · obtain ⟨d, hd⟩ := hdue ℓ' hℓ' hacts
        rw [← hid, hd]
        exact Nat.le_refl 1
      · rw [← hid, hidle ℓ' hℓ' hacts]
        exact Nat.zero_le 1
    have hsome : entries values b ≠ [] := by
      intro hnothing
      obtain ⟨ℓ, hℓ, hacts⟩ := shouldAct_iff.mp hself
      obtain ⟨ℓ', hℓ', hid, -, hiff⟩ := h.due_iff hℓ
      obtain ⟨d, hd⟩ := hdue ℓ' hℓ' ((hiff k stopped).mpr ⟨hacts, hwrappers⟩)
      rw [hid, entries_eq_nil_iff.mp hnothing ℓ hℓ] at hd
      cases hd
    exact List.length_eq_one_iff.mp
      (Nat.le_antisymm hlength (List.length_pos_iff.mpr hsome))
  · intro spared
    refine entries_eq_nil_iff.mpr fun ℓ hℓ => ?_
    obtain ⟨ℓ', hℓ', hid, -, hiff⟩ := h.due_iff hℓ
    rw [← hid]
    refine hidle ℓ' hℓ' fun hacts => spared (List.forall_mem_cons.mpr ?_)
    obtain ⟨hleaf, hwrappers⟩ := (hiff k stopped).mp hacts
    exact ⟨shouldAct_iff.mpr ⟨ℓ, hℓ, hleaf⟩, hwrappers⟩

end Entries

section Call
variable [Scalar α] {t : Moment ε α} {o o' u : Observing ε α} {ds : List (Datum α)} {e : Fault α}

/-- What a call of a tree does when it returns. -/
structure Acted (t : Moment ε α) (a : RecordAction) (o : Observing ε α) (ds : List (Datum α))
    (o' : Observing ε α) : Prop where
  answer : ds ≠ [] ↔ a.shouldAct t.iteration t.stopped = true
  called : ∀ ws b, Stands a ws b → Called t.iteration t.stopped ws b →
    ∃ d, b.recorded o'.memory = b.recorded o.memory ++ [d]
  spared : ∀ ws b, Stands a ws b → ¬ Called t.iteration t.stopped ws b →
    b.recorded o'.memory = b.recorded o.memory
  outside : ∀ i ∉ a.ids, o'.memory.get i = o.memory.get i
  remembered : ∀ ws id cadence, Stands a ws (leaf id (.quantity .change) cadence) →
    (o'.memory.get id).previous = if t.stopped then (o.memory.get id).previous else t.state.x

/-- What a call of a tree does when it fails: a leaf that is called could not capture. -/
structure Failed (t : Moment ε α) (a : RecordAction) (o : Observing ε α) (e : Fault α)
    (o' : Observing ε α) : Prop where
  cause : ∃ ws id kind cadence, Stands a ws (leaf id kind cadence) ∧
    Called t.iteration t.stopped ws (leaf id kind cadence) ∧
    ∃ u v, u.memory.get id = o.memory.get id ∧ capture t id kind u = .error e v
  remembered : t.stopped = true → ∀ i, (o'.memory.get i).previous = (o.memory.get i).previous

theorem acted_of_ok (distinct : a.Distinct) (h : run t a o = .ok ds o') : Acted t a o ds o' := by
  obtain ⟨cs, hrun⟩ := exists_narrated h
  have ran := run_ok hrun
  obtain ⟨rfl, noted⟩ := recorded_ok distinct hrun
  have hleaves : (a.leaves.map Leaf.id).Nodup := a.leaf_ids_sublist.nodup distinct
  -- a call asks exactly the leaves that are due, and each of these gives one value
  have hentries {ws : List RecordAction} {b : RecordAction} (hb : Stands a ws b) :
      (Called t.iteration t.stopped ws b → ∃ d, entries (Capture.valuesOf cs) b = [d]) ∧
        (¬ Called t.iteration t.stopped ws b → entries (Capture.valuesOf cs) b = []) := by
    refine entries_of_called (fun ℓ hℓ hacts => ?_) (fun ℓ hℓ => (ran.valuesOf_eq hleaves hℓ).2) hb
    obtain ⟨-, -, -, d, -, -, hd⟩ := (ran.valuesOf_eq hleaves hℓ).1 hacts
    exact ⟨d, hd⟩
  have hrecorded {ws : List RecordAction} {b : RecordAction} (hb : Stands a ws b) :
      b.recorded o'.memory = b.recorded o.memory ++ entries (Capture.valuesOf cs) b := by
    obtain ⟨n, hn, hid, hsame⟩ := exists_node (α := α) b
    rw [recorded, recorded, ← hid, noted n (hb.nodes_subset hn), hsame]
  refine ⟨?_, fun ws b hb called => ?_, fun ws b hb spared => ?_, ran.kept.spares,
    fun ws id cadence hleaf => ?_⟩
  · have hself : Called t.iteration t.stopped [] a ↔ a.shouldAct t.iteration t.stopped = true :=
      List.forall_mem_singleton
    rw [← hself]
    constructor
    · intro hsome
      exact Classical.byContradiction fun hidle => hsome ((hentries (.here a)).2 hidle)
    · intro called
      obtain ⟨d, hd⟩ := (hentries (.here a)).1 called
      rw [hd]
      exact List.cons_ne_nil d []
  · obtain ⟨d, hd⟩ := (hentries hb).1 called
    exact ⟨d, by rw [hrecorded hb, hd]⟩
  · rw [hrecorded hb, (hentries hb).2 spared, List.append_nil]
  · obtain ⟨ℓ, hℓ, hid, hkind, -⟩ := hleaf.due_iff (List.mem_singleton_self _)
    have hwatches : ℓ.id ∈ watchersOf a.leaves := mem_watchers hℓ hkind
    rw [hid] at hwatches
    rw [ran.kept.previous]
    cases t.stopped with
    | true => simp
    | false => simp [hwatches]

theorem runLeaf_error {id : Nat} {kind : RecordKind} {cadence : Cadence}
    (h : runLeaf t id kind cadence o = .error e o') :
    shouldAct t.iteration t.stopped (leaf id kind cadence) = true ∧
      capture t id kind o = .error e o' := by
  rw [← outcome_runLeaf, Narrated.runLeaf, Scribe.outcome_bind] at h
  rcases sequence_eq_error_iff.mp h with hkeep | ⟨captured, u, -, hrest⟩
  · unfold Narrated.keep at hkeep
    split at hkeep
    · rename_i hacts
      rw [Scribe.outcome_bind] at hkeep
      rcases sequence_eq_error_iff.mp hkeep with hcapture | ⟨d, u, -, hrecord⟩
      · exact ⟨hacts, hcapture⟩
      · cases hrecord
    · cases hkeep
  · obtain ⟨v, hrefresh, -⟩ := refreshLeaf_ok t id kind cadence u
    rw [Scribe.outcome_bind] at hrest
    rcases sequence_eq_error_iff.mp hrest with hfailed | ⟨_, w, -, hpure⟩
    · rw [Scribe.outcome_tacit] at hfailed
      split at hfailed
      · rw [hrefresh] at hfailed
        cases hfailed
      · cases hfailed
    · cases hpure

theorem runEach_error {as : List RecordAction} (distinct : (idsEach as).Nodup)
    (h : runEach t as o = .error e o') :
    ∃ a ∈ as, a.Distinct ∧ ∃ u, run t a u = .error e o' ∧
      (∀ i ∈ a.ids, u.memory.get i = o.memory.get i) ∧
      (t.stopped = true → ∀ i, (u.memory.get i).previous = (o.memory.get i).previous) := by
  induction as generalizing o with
  | nil => cases h
  | cons a as ih =>
    obtain ⟨ha, has, hdisjoint⟩ := distinct_cons distinct
    rcases sequence_eq_error_iff.mp h with hfirst | ⟨first, u, hfirst, hthen⟩
    · exact ⟨a, List.mem_cons_self, ha, o, hfirst, fun _ _ => rfl, fun _ _ => rfl⟩
    · rcases sequence_eq_error_iff.mp hthen with hrest | ⟨rest, v, -, hpure⟩
      · obtain ⟨cs, hrun⟩ := exists_narrated hfirst
        have ran := run_ok hrun
        obtain ⟨b, hb, hdistinct, v, hv, hids, hprevious⟩ := ih has hrest
        refine ⟨b, List.mem_cons_of_mem a hb, hdistinct, v, hv, fun i hi => ?_,
          fun hstopped i => ?_⟩
        · have hi' : i ∉ a.ids := fun hmem => hdisjoint i hmem (mem_idsEach.mpr ⟨b, hb, hi⟩)
          rw [hids i hi, ran.kept.spares i hi']
        · rw [hprevious hstopped i, ran.kept.previous, hstopped]
          exact if_neg fun hrunning => Bool.noConfusion hrunning.1
      · cases hpure

theorem failed_of_error (distinct : a.Distinct) (h : run t a o = .error e o') :
    Failed t a o e o' := by
  induction a using induct generalizing o o' with
  | leaf id kind cadence =>
    rw [run] at h
    obtain ⟨hacts, hcapture⟩ := runLeaf_error h
    refine ⟨⟨[], id, kind, cadence, .here _, List.forall_mem_singleton.mpr hacts, o, o', rfl,
      hcapture⟩, fun _ i => ?_⟩
    rw [capture_error hcapture]
  | group id members ih =>
    rw [run] at h
    rcases sequence_eq_error_iff.mp h with hmembers | ⟨captured, u, -, henter⟩
    · obtain ⟨a, ha, hdistinct, u, hu, hids, hprevious⟩ :=
        runEach_error (distinct_group distinct).2 hmembers
      obtain ⟨⟨ws, i, kind, cadence, stands, called, v, w, hmemory, hcapture⟩, hremembered⟩ :=
        ih a ha hdistinct hu
      -- the members before `a` are other actions, so the leaf still has the memory it had
      have hi : i ∈ a.ids := stands.id_mem_ids
      refine ⟨⟨ws, i, kind, cadence, .member ha stands, called, v, w, ?_, hcapture⟩,
        fun hstopped j => ?_⟩
      · rw [hmemory, hids i hi]
      · rw [hremembered hstopped j, hprevious hstopped j]
    · obtain ⟨v, hv, -⟩ := enter_eq id captured u
      rw [hv] at henter
      cases henter
  | every cadence a ih =>
    rw [run] at h
    split at h
    · rename_i hpasses
      obtain ⟨⟨ws, i, kind, c, stands, called, hcapture⟩, hremembered⟩ := ih distinct h
      have hacts : shouldAct t.iteration t.stopped (every cadence a) = true :=
        shouldAct_every.mpr ⟨Cadence.passes_iff.mp hpasses, stands.shouldAct called⟩
      refine ⟨⟨ws ++ [every cadence a], i, kind, c, .wrapped stands, ?_, hcapture⟩, hremembered⟩
      rw [Called, ← List.cons_append]
      exact List.forall_mem_append.mpr ⟨called, List.forall_mem_singleton.mpr hacts⟩
    · obtain ⟨u, hrefresh, -⟩ := refresh_ok t a o
      rcases sequence_eq_error_iff.mp h with hfailed | ⟨_, v, -, hpure⟩
      · rw [hrefresh] at hfailed
        cases hfailed
      · cases hpure

/-- A call of a tree hands something up if the tree should act, and adds one entry to exactly the
actions that should act below wrappers that all should. Its watchers come to remember the point,
unless the run has stopped, whatever is captured. A call can fail only where a leaf that is called
cannot capture, and so in a tree that should act. -/
theorem acting_law (t : Moment ε α) (o : Observing ε α) (distinct : a.Distinct) :
    (∃ ds o', run t a o = .ok ds o' ∧ Acted t a o ds o') ∨
      ∃ e o', run t a o = .error e o' ∧ Failed t a o e o' ∧
        a.shouldAct t.iteration t.stopped = true := by
  rcases h : run t a o with ⟨ds, o'⟩ | ⟨e, o'⟩
  · exact .inl ⟨ds, o', rfl, acted_of_ok distinct h⟩
  · have failed := failed_of_error distinct h
    obtain ⟨_, _, _, _, stands, called, -⟩ := failed.cause
    exact .inr ⟨e, o', rfl, failed, stands.shouldAct called⟩

end Call

def notebook : RecordAction :=
  .group 0 [.leaf 1 (.quantity .iteration) .always,
    .every .everySecond (.group 2 [.leaf 3 (.quantity .change) .always,
      .leaf 4 (.quantity .iterate) .everyThird])]

def third : Moment Unit Float where
  settings := .standard
  problem := ⟨Manifold.euclideanOf (.whole 1), fun _ _ => pure 0, .costOnly⟩
  state := .start (.array ⟨[1], .whole [7]⟩)
  iteration := 3
  stopped := false

theorem acting_law_notebook : notebook.Distinct ∧ ∃ ds o',
    run third notebook ⟨(), .empty, .empty⟩ = .ok ds o' ∧
      (ds.length = 1 ∧ (o'.memory.get 2).recorded.toList.length = 0) ∧
      Acted third notebook ⟨(), .empty, .empty⟩ ds o' ∧
      (o'.memory.get 3).previous = .array ⟨[1], .whole [7]⟩ := by
  have distinct : notebook.Distinct := by decide
  obtain ⟨ds, o', hrun, hcounts⟩ : ∃ ds o', run third notebook ⟨(), .empty, .empty⟩ = .ok ds o' ∧
      ds.length = 1 ∧ (o'.memory.get 2).recorded.toList.length = 0 := by
    decide +kernel
  rcases acting_law third ⟨(), .empty, .empty⟩ distinct with ⟨_, _, hok, acted⟩ | ⟨_, _, herror, -⟩
  · cases hrun.symm.trans hok
    have hchange : Stands notebook [.every .everySecond _] (.leaf 3 (.quantity .change) .always) :=
      .member (List.mem_cons_of_mem _ (List.mem_singleton_self _))
        (.wrapped (.member List.mem_cons_self (.here _)))
    exact ⟨distinct, ds, o', hrun, hcounts, acted, acted.remembered _ _ _ hchange⟩
  · cases hrun.symm.trans herror

end Geodescent.RecordAction
