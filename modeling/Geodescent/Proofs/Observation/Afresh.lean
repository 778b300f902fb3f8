import Geodescent.Proofs.Observation.Change
import Geodescent.Proofs.Observation.Paired
import Geodescent.Proofs.Observation.Undisturbed

/-! Every run starts afresh. Whatever its observers remember from earlier runs, a record holds none of
it once it has been told that a run starts, and nobody measures from a point of an earlier run. The
run goes, call by call, like one with observers that remember nothing, writes the same text and
leaves the same records: `afresh_law`. -/
namespace Geodescent
variable {ε α : Type}

def Decorator.logs : Decorator ε α → List Nat
  | .record g => g.ids
  | .plain | .debug _ | .custom .. => []

/-- The same surroundings and the same text, and for the decorators `told` the same records and the
same remembered points. -/
structure Observing.Level (told : List (Decorator ε α)) (o o' : Observing ε α) : Prop where
  env : o'.env = o.env
  console : o'.console = o.console
  recorded : ∀ d ∈ told, ∀ i ∈ d.logs, (o'.memory.get i).recorded = (o.memory.get i).recorded
  previous : ∀ d ∈ told, ∀ i ∈ d.watchers, (o'.memory.get i).previous = (o.memory.get i).previous

namespace Observing.Level
variable {told : List (Decorator ε α)} {o o' : Observing ε α}

theorem anti {fewer : List (Decorator ε α)} (h : o.Level told o') (hsub : fewer ⊆ told) :
    o.Level fewer o' :=
  ⟨h.env, h.console, fun d hd => h.recorded d (hsub hd), fun d hd => h.previous d (hsub hd)⟩

theorem none (h : o.Level told o') : o.Level [] o' := h.anti (List.nil_subset told)

theorem revise (h : o.Level told o') (id : Nat) {f : ActionMemory α → ActionMemory α}
    (hrecorded : ∀ m m' : ActionMemory α, m'.recorded = m.recorded →
      (f m').recorded = (f m).recorded)
    (hprevious : ∀ m m' : ActionMemory α, m'.previous = m.previous →
      (f m').previous = (f m).previous) : (Observing.revise id f o).Level told
        (Observing.revise id f o') := by
  refine ⟨h.env, h.console, fun d hd i hi => ?_, fun d hd i hi => ?_⟩
  · have hsame := h.recorded d hd i hi
    rw [memory_revise, memory_revise]
    split
    · subst id
      exact hrecorded _ _ hsame
    · exact hsame
  · have hsame := h.previous d hd i hi
    rw [memory_revise, memory_revise]
    split
    · subst id
      exact hprevious _ _ hsame
    · exact hsame

theorem respected (told : List (Decorator ε α)) :
    Respected (told.flatMap Decorator.watchers) (Level told) where
  env h := h.env
  previous h i hi := by
    obtain ⟨d, hd, hi⟩ := List.mem_flatMap.mp hi
    exact h.previous d hd i hi
  surrounded h env := ⟨rfl, h.console, h.recorded, h.previous⟩
  remember h id x := h.revise id (fun _ _ h => h) fun _ _ _ => rfl
  record h id d := h.revise id (fun _ _ h => congrArg (·.push d) h) fun _ _ h => h
  erase h id := h.revise id (fun _ _ _ => rfl) fun _ _ h => h
  write h outlet text := ⟨h.env, congrArg (·.push (outlet, text)) h.console, h.recorded,
    h.previous⟩

end Observing.Level

section Told
variable [Scalar α] {t : Moment ε α} {d : Decorator ε α} {told : List (Decorator ε α)}
  {o o' u u' : Observing ε α}

theorem Decorator.level_of_told (hrunning : t.stopped = false) (h : d.tell .start t o = .ok () u)
    (h' : d.tell .start t o' = .ok () u') (hend : u.Level told u') :
    u.Level (told ++ [d]) u' := by
  have hrecorded : ∀ i ∈ d.logs, (u'.memory.get i).recorded = (u.memory.get i).recorded := by
    intro i hi
    cases d with
    | record g =>
      obtain ⟨w, emptied, refreshed⟩ := tell_record_start h
      obtain ⟨w', emptied', refreshed'⟩ := tell_record_start h'
      have hids : i ∈ g.ids := hi
      rw [refreshed.recorded, refreshed'.recorded, emptied.memory, emptied'.memory, if_pos hids,
        if_pos hids]
    | plain | debug _ | custom _ _ _ => exact absurd hi List.not_mem_nil
  have hprevious : ∀ i ∈ d.watchers, (u'.memory.get i).previous = (u.memory.get i).previous := by
    intro i hi
    rw [tell_watchers hrunning h i hi, tell_watchers hrunning h' i hi]
  exact ⟨hend.env, hend.console,
    List.forall_mem_append.mpr ⟨hend.recorded, List.forall_mem_singleton.mpr hrecorded⟩,
    List.forall_mem_append.mpr ⟨hend.previous, List.forall_mem_singleton.mpr hprevious⟩⟩

theorem Decorator.twin_start (library : d.Library) (hzero : t.iteration = 0)
    (hrunning : t.stopped = false) :
    Twin (Observing.Level told) (Observing.Level (told ++ [d])) (Observing.Level told)
      (d.tell .start t) (d.tell .start t) := by
  intro o o' hlevel
  have hsame := twin_tell (Observing.Level.respected told) library (.inl ⟨rfl, hzero⟩) o o' hlevel
  rcases h : d.tell .start t o with ⟨_, u⟩ | ⟨e, u⟩
  · rw [h] at hsame
    obtain ⟨u', h', hend⟩ := hsame.of_ok
    rw [h']
    exact .ok () (level_of_told hrunning h h' hend)
  · rw [h] at hsame
    generalize d.tell .start t o' = r' at hsame
    cases hsame with
    | error _ hend => exact .error e hend

end Told

/-- Sessions that differ at most in what is remembered outside of the decorators `told`. -/
abbrev Session.Level (told : List (Decorator ε α)) : Session ε α → Session ε α → Prop :=
  Session.Paired (Observing.Level told)

def Session.afresh (s : Session ε α) : Session ε α := { s with memory := .empty }

theorem Session.level_afresh (s : Session ε α) : s.Level [] s.afresh :=
  ⟨rfl, rfl, rfl, rfl, rfl, rfl, fun _ hd => absurd hd List.not_mem_nil,
    fun _ hd => absurd hd List.not_mem_nil⟩

namespace Solver
variable [Scalar α] {p : Problem ε α} {o : Options ε α} {chain : List (Decorator ε α)}
  {solver : Solver ε α} {s s' : Session ε α} {told : List (Decorator ε α)} {d : Decorator ε α}
  {v : Visit ε α}

/-- Runs of which the second remembers nothing of what the first one does. -/
abbrev LevelRuns {β : Type} (before after failed : List (Decorator ε α))
    (w : Narrated.Tale ε α β) : Prop :=
  Scribe.Twin (Session.Level before) (Session.Level after) (Session.Level failed)
    (Visit.Paired (Observing.Level failed)) w w

section Runs
variable (p o solver)

theorem level_start (told : List (Decorator ε α)) (library : d.Library) :
    LevelRuns told (told ++ [d]) told (Narrated.visit p o solver (.hook .start 0 d)) := by
  have hperform : Twin (Session.Level told) (Session.Level (told ++ [d])) (Session.Level told)
      ((Call.hook .start 0 d).perform p o solver) ((Call.hook .start 0 d).perform p o solver) :=
    twin_hook fun s => Decorator.twin_start library rfl rfl
  refine .entering hperform fun s s' hs => ⟨rfl, hs, ?_⟩
  refine (hperform s s' hs).mono (fun _ _ h => h.mono fun _ _ h => ?_) fun _ _ h => h
  exact h.anti (List.subset_append_left told [d])

theorem level_starts (told : List (Decorator ε α)) (library : ∀ d ∈ chain, d.Library) :
    LevelRuns told (told ++ chain) told
      (Narrated.visitEach p o solver (hooks chain .start 0)) := by
  induction chain generalizing told with
  | nil =>
    rw [List.append_nil]
    exact .pure ()
  | cons d ds ih =>
    have hrest := ih (told ++ [d]) fun e he => library e (List.mem_cons_of_mem d he)
    have hsub : told ⊆ told ++ [d] := List.subset_append_left told [d]
    rw [List.append_assoc, List.singleton_append] at hrest
    refine .bind (level_start p o solver told (library d List.mem_cons_self)) fun _ => ?_
    exact hrest.mono (fun _ _ h => h) (fun _ _ h => h) (fun _ _ h => h.mono fun _ _ h => h.anti hsub)
      fun _ _ h => h.mono fun _ _ h => h.anti hsub

theorem level_course (library : ∀ d ∈ chain, d.Library) (fuel : Nat) :
    LevelRuns chain chain chain (do
      Scribe.tacit (modify (Session.note (openingEntry p o solver)))
      Narrated.proceed p o chain solver fuel) := by
  refine .bind (paired_tacit (twin_note _)) fun _ => ?_
  refine paired_proceed (Observing.Level.respected chain) (fun d hd phase k s _ => ?_) fuel
  refine Decorator.twin_tell (Observing.Level.respected chain) (library d hd) (.inr fun i hi => ?_)
  exact List.mem_flatMap.mpr ⟨d, hd, hi⟩

theorem level_solve (library : ∀ d ∈ chain, d.Library) (fuel : Nat) :
    LevelRuns [] chain [] (Narrated.solve p o chain solver fuel) := by
  have respected := Observing.Level.respected ([] : List (Decorator ε α))
  refine .bind (paired_tacit twin_validate) fun _ => ?_
  refine .bind (paired_tacit (twin_advance opened)) fun _ => ?_
  refine .bind (paired_other respected Call.prepare_ne_hook) fun _ => ?_
  refine .bind (level_starts p o solver [] library) fun _ => ?_
  exact (level_course p o solver library fuel).mono (fun _ _ h => h) (fun _ _ h => h)
    (fun _ _ h => h.mono fun _ _ h => h.none) fun _ _ h => h.mono fun _ _ h => h.none

theorem perform_record_start (g : RecordAction) (s : Session ε α) :
    ∃ t, (Call.hook .start 0 (.record g)).perform p o solver s = .ok false t ∧
      ∀ b ∈ g.nodes, b.recorded t.memory = [] := by
  obtain ⟨u, hu, refreshed⟩ := g.refresh_ok (told p .start 0 s)
    (g.reset ((Session.observing ε α).get s))
  have htell : Decorator.tell .start (told p .start 0 s) (.record g)
      ((Session.observing ε α).get s) = .ok () u := sequence_eq_ok_iff.mpr ⟨(), _, rfl, hu⟩
  refine ⟨(Session.observing ε α).set u s, ?_, fun b hb => ?_⟩
  · rw [Call.perform, get_bind]
    exact bind_of_ok (Part.run_of_ok _ htell)
  · have hid : b.id ∈ g.ids := RecordAction.id_mem_ids hb
    have hnothing : (u.memory.get b.id).recorded = .empty := by
      rw [refreshed.recorded, (g.emptied_reset _).memory, if_pos hid]
    change (u.memory.get b.id).recorded.toList = []
    rw [hnothing]
    rfl

end Runs

/-- The call told the decorator `d` of the start of a run. -/
def Visit.Starts (d : Decorator ε α) (v : Visit ε α) : Prop :=
  v.call = .hook .start 0 d ∧ ∃ b t, v.outcome = .ok b t

section Starts
variable (library : ∀ e ∈ chain, e.Library) (starts : v.Starts d)
include library starts

theorem level_of_starts (hs : s.Level [] s')
    (hv : v ∈ (Narrated.visitEach p o solver (hooks chain .start 0) s).1) :
    (left (Narrated.visitEach p o solver (hooks chain .start 0) s).2).Level [d]
      (left (Narrated.visitEach p o solver (hooks chain .start 0) s').2) := by
  induction chain generalizing s s' with
  | nil => exact absurd hv List.not_mem_nil
  | cons e ds ih =>
    have hds : ∀ f ∈ ds, f.Library := fun f hf => library f (List.mem_cons_of_mem e hf)
    have hfirst := level_start p o solver [] (library e List.mem_cons_self)
    refine hfirst.left_bind (K := Session.Level [d]) hs (fun fault t hfailed => ?_)
      fun b t t' hrun ht => ?_
    · -- the only call has failed
      rcases Scribe.mem_bind_iff.mp hv with hmem | ⟨b, u, hok, -⟩
      · obtain ⟨-, b, u, hok⟩ := starts
        rw [List.mem_singleton.mp hmem] at hok
        cases hok.symm.trans hfailed
      · cases hok.symm.trans hfailed
    · rcases Scribe.mem_bind_iff.mp hv with hmem | ⟨c, u, hok, hrest⟩
      · -- from here on `d` is level, and the others keep it so
        obtain ⟨hcall, -⟩ := starts
        rw [List.mem_singleton.mp hmem] at hcall
        cases hcall
        have hothers := (level_starts p o solver [d] hds t t' ht).2
        have hend := hothers.mono (fun _ _ h => h.mono fun _ _ h =>
          h.anti (List.subset_append_left [d] ds)) fun _ _ h => h
        exact hend.left
      · cases hok.symm.trans hrun
        exact ih hds (ht.mono fun _ _ h => h.none) hrest

theorem level_of_course (hd : d ∈ chain) (hs : s.Level [] s') {fuel : Nat}
    (hv : v ∈ (Narrated.course p o chain solver fuel s).1) :
    (left (Narrated.course p o chain solver fuel s).2).Level [d]
      (left (Narrated.course p o chain solver fuel s').2) := by
  refine (level_starts p o solver [] library).left_bind (K := Session.Level [d]) hs
    (fun fault t hfailed => ?_) fun b t t' hrun ht => ?_
  · rcases Scribe.mem_bind_iff.mp hv with hmem | ⟨b, u, hok, -⟩
    · exact level_of_starts library starts hs hmem
    · cases hok.symm.trans hfailed
  · have hrest := (level_course p o solver library fuel t t' ht).2
    refine hrest.left.mono fun _ _ h => h.anti fun e he => ?_
    rw [List.mem_singleton.mp he]
    exact hd

omit [Scalar α] library starts in
theorem level_of_later {β γ : Type} {w : Narrated.Tale ε α β} {f : β → Narrated.Tale ε α γ}
    (hw : LevelRuns [] [] [] w) (silent : ∀ s, v ∉ (w s).1)
    (rest : ∀ b s s', s.Level [] s' → v ∈ (f b s).1 →
      (left (f b s).2).Level [d] (left (f b s').2))
    (hs : s.Level [] s') (hv : v ∈ ((w >>= f) s).1) :
    (left ((w >>= f) s).2).Level [d] (left ((w >>= f) s').2) := by
  obtain ⟨b, u, hok, hlater⟩ := (Scribe.mem_bind_iff.mp hv).resolve_left (silent s)
  refine hw.left_bind (K := Session.Level [d]) hs (fun fault t hfailed => ?_)
    fun c t t' hrun ht => ?_
  · cases hok.symm.trans hfailed
  · cases hok.symm.trans hrun
    exact rest _ _ t' ht hlater

theorem level_of_solve (hd : d ∈ chain) (hs : s.Level [] s') {fuel : Nat}
    (hv : v ∈ history fuel p o chain solver s) :
    (left (solve fuel p o chain solver s)).Level [d] (left (solve fuel p o chain solver s')) := by
  have respected := Observing.Level.respected ([] : List (Decorator ε α))
  have hprepare : ∀ s, v ∉ (Narrated.visit p o solver .prepare s).1 := by
    intro s hmem
    have hcall := starts.1
    rw [List.mem_singleton.mp hmem] at hcall
    cases hcall
  rw [← outcome_solve]
  refine level_of_later (paired_tacit twin_validate) (fun _ => List.not_mem_nil)
    (fun _ s s' hs hv => ?_) hs hv
  refine level_of_later (paired_tacit (twin_advance opened))
    (fun _ => List.not_mem_nil) (fun _ s s' hs hv => ?_) hs hv
  refine level_of_later (paired_other respected Call.prepare_ne_hook) hprepare
    (fun _ s s' hs hv => ?_) hs hv
  exact level_of_course library starts hd hs hv

end Starts

structure SameRecord (g : RecordAction) (memory memory' : Store (ActionMemory α)) : Prop where
  nodes : ∀ b ∈ g.nodes, b.recorded memory' = b.recorded memory
  values : ∀ token, g.values memory' token = g.values memory token

omit [Scalar α] in
theorem sameRecord_of_level {g : RecordAction} (h : s.Level told s') (hg : .record g ∈ told) :
    SameRecord g s.memory s'.memory := by
  have hrecorded : ∀ i ∈ g.ids, (s'.memory.get i).recorded = (s.memory.get i).recorded :=
    h.observing.recorded (.record g) hg
  refine ⟨fun b hb => ?_, fun token => RecordAction.values_congr hrecorded⟩
  exact RecordAction.recorded_congr fun i hi =>
    hrecorded i (RecordAction.ids_subset_of_mem_nodes hb hi)

/-- The law of fresh starts. Whatever was remembered before, a run goes call by call like one whose
observers remember nothing, with the same states and the same text, and fails or returns alike. Who
was told of its start remembers no point from before, a record that was told of it holds nothing from
before, and in the end it holds the same, whether the run returned or failed. -/
theorem afresh_law (library : ∀ d ∈ chain, d.Library) (fuel : Nat) (s : Session ε α) :
    List.Forall₂ (Visit.Paired (Observing.Level [])) (history fuel p o chain solver s)
      (history fuel p o chain solver s.afresh) ∧
    Parallel (Session.Level chain) (Session.Level []) (solve fuel p o chain solver s)
      (solve fuel p o chain solver s.afresh) ∧
    (∀ v ∈ history fuel p o chain solver s, ∀ d ∈ chain, v.call = .hook .start 0 d →
      ∀ b t, v.outcome = .ok b t → Watching d v.before.state.x t) ∧
    ∀ v ∈ history fuel p o chain solver s, ∀ g, .record g ∈ chain →
      v.call = .hook .start 0 (.record g) →
      (∃ t, v.outcome = .ok false t ∧ ∀ b ∈ g.nodes, b.recorded t.memory = []) ∧
      SameRecord g (left (solve fuel p o chain solver s)).memory
        (left (solve fuel p o chain solver s.afresh)).memory := by
  have hlevel := s.level_afresh
  obtain ⟨hcalls, hends⟩ := level_solve p o solver library fuel s _ hlevel
  refine ⟨hcalls, ?_, fun v hv d hd hcall b t ht => ?_, fun v hv g hg hcall => ?_⟩
  · rw [← outcome_solve]
    exact hends
  · have hperform := outcome_of_mem_history hv
    rw [hcall, ht] at hperform
    have hphase : Phase.start ≠ .stop := nofun
    have hwatching := watching_of_told hphase hperform.symm
    rw [(perform_hook hperform.symm).2.1] at hwatching
    exact hwatching
  · have hperform := outcome_of_mem_history hv
    rw [hcall] at hperform
    obtain ⟨t, ht, hnothing⟩ := perform_record_start p o solver g v.before
    rw [ht] at hperform
    have starts : v.Starts (.record g) := ⟨hcall, false, t, hperform⟩
    have hend := level_of_solve library starts hg hlevel hv
    exact ⟨⟨t, hperform, hnothing⟩, sameRecord_of_level hend (List.mem_singleton_self _)⟩

def leftover : Store (ActionMemory Float) :=
  (Store.empty.set 0 ⟨.empty, .array ⟨[1], .whole [9]⟩⟩).set 2
    ⟨Chronicle.empty.push (.real 7), .array ⟨[1], .whole [9]⟩⟩

def stale : Session Unit Float := { origin with memory := leftover }

theorem afresh_law_counting :
    (stale.memory.get 2).recorded.toList.length = 1 ∧
    ∃ t t', solve 3 line twice lookouts counting stale = .ok () t ∧
      solve 3 line twice lookouts counting stale.afresh = .ok () t' ∧
      t'.console = t.console ∧ (t.memory.get 2).recorded.toList.length = 2 ∧
      SameRecord (.group 1 [.leaf 2 (.quantity .change) .always]) t.memory t'.memory := by
  obtain ⟨_, t, ht, hlength⟩ : ∃ b t, solve 3 line twice lookouts counting stale = .ok b t ∧
      (t.memory.get 2).recorded.toList.length = 2 := by
    decide +kernel
  have library : ∀ d ∈ lookouts, d.Library :=
    List.forall_mem_cons.mpr ⟨trivial, List.forall_mem_singleton.mpr trivial⟩
  obtain ⟨-, hends, -, hrecord⟩ : _ ∧ Parallel _ _ (solve 3 line twice lookouts counting stale) _ ∧
    _ ∧ _ := afresh_law library 3 stale
  rw [ht] at hends hrecord
  obtain ⟨t', ht', hlevel⟩ := hends.of_ok
  rw [ht'] at hrecord
  -- a run that returns has told all decorators of its start
  obtain ⟨n, -, hcalls, -⟩ := calls_of_solve ht
  have hrecords : .record (.group 1 [.leaf 2 (.quantity .change) .always]) ∈ lookouts :=
    List.mem_cons_of_mem _ (List.mem_singleton_self _)
  have hmem : Call.hook .start 0 (.record (.group 1 [.leaf 2 (.quantity .change) .always])) ∈
      calls lookouts n :=
    List.mem_cons_of_mem _ (List.mem_append_left _ (List.mem_map_of_mem hrecords))
  rw [← hcalls] at hmem
  obtain ⟨v, hv, hcall⟩ := List.mem_map.mp hmem
  obtain ⟨-, hsame⟩ := hrecord v hv _ hrecords hcall
  exact ⟨by decide, t, t', ht, ht', hlevel.observing.console, hlength, hsame⟩

end Solver
end Geodescent
