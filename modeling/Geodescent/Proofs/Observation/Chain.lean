import Geodescent.Proofs.Observation.Debug.Effect
import Geodescent.Proofs.Observation.Record.Effect
import Geodescent.Proofs.Run.Course

/-! Decorators of a chain, each with the numbers under which its actions remember things. Where these
are apart, telling one decorator leaves the memory of all others alone (`tell_spares`). A call of a
hook lists what it asked of the leaves: `Visit.captures` and `Visit.printings`. -/
namespace Geodescent

section Reset
variable {ε α : Type}

structure Observing.Emptied (ids : List Nat) (o o' : Observing ε α) : Prop where
  env : o'.env = o.env
  console : o'.console = o.console
  memory : ∀ i, o'.memory.get i =
    if i ∈ ids then { o.memory.get i with recorded := .empty } else o.memory.get i

theorem Observing.Emptied.trans {ids ids' : List Nat} {o o' o'' : Observing ε α}
    (h : Emptied ids o o') (g : Emptied ids' o' o'') : Emptied (ids ++ ids') o o'' := by
  refine ⟨g.env.trans h.env, g.console.trans h.console, fun i => ?_⟩
  rw [g.memory, h.memory]
  by_cases hi : i ∈ ids
  · simp [hi]
  · simp [hi]

theorem Observing.emptied_erase (id : Nat) (o : Observing ε α) : Emptied [id] o (erase id o) := by
  refine ⟨rfl, rfl, fun i => ?_⟩
  rw [memory_erase]
  simp [eq_comm]

theorem RecordAction.emptied_resetEach {as : List RecordAction}
    (h : ∀ a ∈ as, ∀ o : Observing ε α, Observing.Emptied a.ids o (a.reset o))
    (o : Observing ε α) : Observing.Emptied (idsEach as) o (resetEach as o) := by
  induction as generalizing o with
  | nil => exact ⟨rfl, rfl, fun i => (if_neg List.not_mem_nil).symm⟩
  | cons a as ih =>
    have hfirst := h a List.mem_cons_self o
    have hrest := ih (fun b hb => h b (List.mem_cons_of_mem a hb)) (a.reset o)
    rw [idsEach_cons, resetEach]
    exact hfirst.trans hrest

theorem RecordAction.emptied_reset (g : RecordAction) (o : Observing ε α) :
    Observing.Emptied g.ids o (g.reset o) := by
  induction g using RecordAction.induct generalizing o with
  | leaf id kind cadence => exact Observing.emptied_erase id o
  | group id members ih =>
    have hown := Observing.emptied_erase id o
    have hmembers := emptied_resetEach ih (Observing.erase id o)
    exact hown.trans hmembers
  | every cadence a ih => exact ih o

end Reset

namespace Decorator
variable {ε α : Type} {d e : Decorator ε α} {chain : List (Decorator ε α)}

def ids : Decorator ε α → List Nat
  | .debug a => a.ids
  | .record g => g.ids
  | .plain => []
  | .custom .. => []

def watchers : Decorator ε α → List Nat
  | .debug a => a.watchers
  | .record g => g.watchers
  | .plain => []
  | .custom .. => []

def Distinct : Decorator ε α → Prop
  | .debug a => a.Distinct
  | .record g => g.Distinct
  | .plain => True
  | .custom .. => True

def Library : Decorator ε α → Prop
  | .plain => True
  | .debug _ => True
  | .record _ => True
  | .custom .. => False

/-- A decorator that leaves the memory of the actions `ids` alone. -/
def Spares (is : List Nat) (d : Decorator ε α) : Prop :=
  match d with
  | .custom _ _ hook => ∀ phase t o o', hook phase t o = .ok () o' →
      ∀ i ∈ is, o'.memory.get i = o.memory.get i
  | d => ∀ i ∈ is, i ∉ d.ids

/-- Decorators that share no action. -/
def Apart (d e : Decorator ε α) : Prop := d.Spares e.ids ∧ e.Spares d.ids

theorem watchers_subset_ids (d : Decorator ε α) : d.watchers ⊆ d.ids := by
  cases d with
  | debug a => exact a.watchers_subset_ids
  | record g => exact g.watchers_subset_ids
  | plain => exact List.Subset.refl _
  | custom className fields hook => exact List.Subset.refl _

theorem ids_eq_nil_of_spares_self (h : d.Spares d.ids) : d.ids = [] := by
  cases d with
  | debug a => exact List.eq_nil_iff_forall_not_mem.mpr fun i hi => h i hi hi
  | record g => exact List.eq_nil_iff_forall_not_mem.mpr fun i hi => h i hi hi
  | plain => rfl
  | custom className fields hook => rfl

theorem exists_split (apart : chain.Pairwise Apart) (h : d ∈ chain) :
    ∃ pre post, chain = pre ++ d :: post ∧ (∀ e ∈ pre, e.Spares d.ids) ∧
      ∀ e ∈ post, e.Spares d.ids := by
  obtain ⟨pre, post, rfl⟩ := List.append_of_mem h
  obtain ⟨-, hpost, hpre⟩ := List.pairwise_append.mp apart
  refine ⟨pre, post, rfl, fun e he => ?_, fun e he => ?_⟩
  · exact (hpre e he d List.mem_cons_self).1
  · exact ((List.pairwise_cons.mp hpost).1 e he).2

variable [Scalar α] {t : Moment ε α} {o o' : Observing ε α} {phase : Phase}

theorem tell_debug {a : DebugAction} (h : (debug a).tell phase t o = .ok () o') :
    ∃ gs, DebugAction.Narrated.run t a o = (gs, .ok () o') := by
  have hrun : a.run t o = .ok () o' := h
  rw [← DebugAction.outcome_run] at hrun
  exact ⟨_, Prod.ext rfl hrun⟩

theorem tell_record {g : RecordAction} (hphase : phase ≠ .start)
    (h : (record g).tell phase t o = .ok () o') :
    ∃ cs ds, RecordAction.Narrated.run t g o = (cs, .ok ds o') := by
  have hrun : ∃ ds, g.run t o = .ok ds o' := by
    cases phase with
    | start => exact absurd rfl hphase
    | iteration | stop =>
      obtain ⟨ds, u, hds, hpure⟩ := sequence_eq_ok_iff.mp h
      cases hpure
      exact ⟨ds, hds⟩
  obtain ⟨ds, hds⟩ := hrun
  obtain ⟨cs, hcs⟩ := RecordAction.exists_narrated hds
  exact ⟨cs, ds, hcs⟩

theorem tell_record_start {g : RecordAction} (h : (record g).tell .start t o = .ok () o') :
    ∃ u, Observing.Emptied g.ids o u ∧ Observing.Refreshed t.state.x g.watchers u o' := by
  obtain ⟨_, u, hreset, hrefresh⟩ := sequence_eq_ok_iff.mp h
  cases hreset
  obtain ⟨w, hw, refreshed⟩ := g.refresh_ok t (g.reset o)
  rw [hw] at hrefresh
  cases hrefresh
  exact ⟨_, g.emptied_reset o, refreshed⟩

theorem tell_spares {is : List Nat} (hd : d.Spares is) (h : d.tell phase t o = .ok () o') :
    ∀ i ∈ is, o'.memory.get i = o.memory.get i := by
  intro i hi
  cases d with
  | plain =>
    cases h
    rfl
  | debug a =>
    obtain ⟨gs, hrun⟩ := tell_debug h
    exact (DebugAction.run_ok hrun).kept.spares i (hd i hi)
  | record g =>
    by_cases hphase : phase = .start
    · subst hphase
      obtain ⟨u, emptied, refreshed⟩ := tell_record_start h
      have hids : i ∉ g.ids := hd i hi
      have hwatchers : i ∉ g.watchers := fun hmem => hids (g.watchers_subset_ids hmem)
      rw [refreshed.spares hwatchers, emptied.memory, if_neg hids]
    · obtain ⟨cs, ds, hrun⟩ := tell_record hphase h
      exact (RecordAction.run_ok hrun).kept.spares i (hd i hi)
  | custom className fields hook => exact hd phase t o o' h i hi

theorem tell_watchers (hrunning : t.stopped = false) (h : d.tell phase t o = .ok () o') :
    ∀ i ∈ d.watchers, (o'.memory.get i).previous = t.state.x := by
  intro i hi
  cases d with
  | plain => exact absurd hi List.not_mem_nil
  | debug a =>
    obtain ⟨gs, hrun⟩ := tell_debug h
    rw [(DebugAction.run_ok hrun).kept.previous, if_pos ⟨hrunning, hi⟩]
  | record g =>
    by_cases hphase : phase = .start
    · subst hphase
      obtain ⟨u, -, refreshed⟩ := tell_record_start h
      exact refreshed.previous hi
    · obtain ⟨cs, ds, hrun⟩ := tell_record hphase h
      rw [(RecordAction.run_ok hrun).kept.previous, if_pos ⟨hrunning, hi⟩]
  | custom className fields hook => exact absurd hi List.not_mem_nil

end Decorator

namespace Solver
variable {ε α : Type} [Scalar α] {p : Problem ε α} {o : Options ε α} {solver : Solver ε α}

def told (p : Problem ε α) (phase : Phase) (k : Nat) (s : Session ε α) : Moment ε α :=
  s.moment p (Int.ofNat k) (phase = .stop)

/-- What a call of a hook asked of the leaves of a record; nothing is asked when a run starts. -/
def Visit.captures (p : Problem ε α) (v : Visit ε α) : List (Capture ε α) :=
  match v.call with
  | .hook .start _ _ => []
  | .hook phase k (.record g) =>
    (RecordAction.Narrated.run (told p phase k v.before) g ((Session.observing ε α).get v.before)).1
  | _ => []

def Visit.printings (p : Problem ε α) (v : Visit ε α) : List (Printing ε α) :=
  match v.call with
  | .hook phase k (.debug a) =>
    (DebugAction.Narrated.run (told p phase k v.before) a ((Session.observing ε α).get v.before)).1
  | _ => []

theorem tell_of_perform {s t : Session ε α} {b : Bool} {phase : Phase} {k : Nat}
    {d : Decorator ε α} (h : (Call.hook phase k d).perform p o solver s = .ok b t) :
    ∃ u, d.tell phase (told p phase k s) ((Session.observing ε α).get s) = .ok () u ∧
      t = (Session.observing ε α).set u s := by
  obtain ⟨_, s', hget, hrun⟩ := sequence_eq_ok_iff.mp h
  cases hget
  obtain ⟨_, s', htell, hpure⟩ := sequence_eq_ok_iff.mp hrun
  cases hpure
  exact (Part.run_eq_ok_iff _).mp htell

theorem memory_of_perform {c : Call ε α} {s t : Session ε α} {b : Bool}
    (hc : ∀ phase k d, c ≠ .hook phase k d) (h : c.perform p o solver s = .ok b t) :
    t.memory = s.memory ∧ t.console = s.console ∧ t.settings = s.settings := by
  cases c with
  | hook phase k d => exact absurd rfl (hc phase k d)
  | prepare =>
    obtain ⟨_, u, hrun, hpure⟩ := sequence_eq_ok_iff.mp h
    cases hpure
    obtain ⟨_, -, rfl⟩ := (Part.run_eq_ok_iff _).mp hrun
    exact ⟨rfl, rfl, rfl⟩
  | judge k =>
    obtain ⟨_, u, hget, hrun⟩ := sequence_eq_ok_iff.mp h
    cases hget
    obtain ⟨_, -, rfl⟩ := (Part.run_eq_ok_iff _).mp hrun
    exact ⟨rfl, rfl, rfl⟩
  | step k =>
    obtain ⟨_, u, hget, hthen⟩ := sequence_eq_ok_iff.mp h
    cases hget
    obtain ⟨_, u, hrun, hpure⟩ := sequence_eq_ok_iff.mp hthen
    cases hpure
    obtain ⟨_, -, rfl⟩ := (Part.run_eq_ok_iff _).mp hrun
    exact ⟨rfl, rfl, rfl⟩

def Call.Spares (is : List Nat) (c : Call ε α) : Prop :=
  ∀ phase k d, c = .hook phase k d → d.Spares is

theorem memory_of_spared {c : Call ε α} {s t : Session ε α} {is : List Nat} {b : Bool}
    (hc : c.Spares is) (h : c.perform p o solver s = .ok b t) :
    ∀ i ∈ is, t.memory.get i = s.memory.get i := by
  intro i hi
  cases c with
  | hook phase k d =>
    obtain ⟨u, htell, rfl⟩ := tell_of_perform h
    have hsame := Decorator.tell_spares (hc phase k d rfl) htell i hi
    exact hsame
  | prepare | judge _ | step _ => rw [(memory_of_perform (by intro _ _ _ hc; cases hc) h).1]

end Solver
end Geodescent
