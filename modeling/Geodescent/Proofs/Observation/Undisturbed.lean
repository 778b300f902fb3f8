import Geodescent.Proofs.Observation.Mirrored
import Geodescent.Proofs.Observation.Paired

/-! Observation does not change a run. A run that is observed is followed, call by call, by the run
with fewer observers (`follows_solve`): all that observers change is what they remember themselves
and the text that they write. Hence a run that nobody observes goes the same way, and the records of a
run do not depend on the debug output beside them: `undisturbed_law`. -/
namespace Geodescent

structure Session.Matches {ε α : Type} (keep : List Nat) (s s' : Session ε α) : Prop where
  settings : s'.settings = s.settings
  state : s'.state = s.state
  nodes : s'.nodes = s.nodes
  journal : s'.journal = s.journal
  observing : ((observing ε α).get s).Agrees keep ((observing ε α).get s')

namespace Session.Matches
variable {ε α : Type} {keep : List Nat} {s s' : Session ε α}

theorem refl (keep : List Nat) (s : Session ε α) : s.Matches keep s :=
  ⟨rfl, rfl, rfl, rfl, rfl, fun _ _ => rfl⟩

theorem env (h : s.Matches keep s') : s'.env = s.env := h.observing.env

theorem memory (h : s.Matches keep s') {i : Nat} (hi : i ∈ keep) :
    s'.memory.get i = s.memory.get i := h.observing.memory i hi

theorem paired (h : s.Matches keep s') : s.Paired (Observing.Agrees keep) s' :=
  ⟨h.settings, h.state, h.nodes, h.journal, h.observing⟩

theorem of_paired (h : s.Paired (Observing.Agrees keep) s') : s.Matches keep s' :=
  ⟨h.settings, h.state, h.nodes, h.journal, h.observing⟩

theorem mirrored {β : Type} {m : Run ε α β}
    (h : Twin (Session.Paired (Observing.Agrees keep)) (Session.Paired (Observing.Agrees keep))
      (Session.Paired (Observing.Agrees keep)) m m) : Mirrored (Matches keep) m :=
  .of_twin (h.mono (fun _ _ h => h.paired) (fun _ _ h => of_paired h) fun _ _ h => h)

end Session.Matches

namespace Decorator
variable {ε α : Type} {chain : List (Decorator ε α)}

def records : List (Decorator ε α) → List RecordAction
  | [] => []
  | .record g :: ds => g :: records ds
  | _ :: ds => records ds

/-- A chain of the library's decorators whose debug output shares no action with its records. -/
structure Orderly (chain : List (Decorator ε α)) : Prop where
  library : ∀ d ∈ chain, d.Library
  separate : ∀ a, .debug a ∈ chain → ∀ g ∈ records chain, ∀ i ∈ g.ids, i ∉ a.ids

theorem record?_eq_head (chain : List (Decorator ε α)) : record? chain = (records chain).head? := by
  induction chain with
  | nil => rfl
  | cons d ds ih =>
    cases d with
    | record g => rfl
    | plain | debug _ | custom _ _ _ => exact ih

theorem getRecord_congr [Scalar α] {chain' : List (Decorator ε α)}
    {memory memory' : Store (ActionMemory α)} (hrecords : records chain' = records chain)
    (h : ∀ g ∈ records chain, ∀ i ∈ g.ids,
      (memory'.get i).recorded = (memory.get i).recorded) (token : Datum α) :
    getRecord memory' token chain' = getRecord memory token chain := by
  rw [getRecord, getRecord, record?_eq_head, record?_eq_head, hrecords]
  rcases hhead : (records chain).head? with _ | g
  · rfl
  · have hg : g ∈ records chain := List.mem_of_head? hhead
    simp only [RecordAction.recorded_congr (h g hg), RecordAction.values_congr (h g hg)]

end Decorator

namespace Solver
variable {ε α : Type} [Scalar α] {p : Problem ε α} {o : Options ε α}
  {chain chain' : List (Decorator ε α)} {solver : Solver ε α} {s t : Session ε α} {keep : List Nat}

def Visit.station? (v : Visit ε α) : Option (Call ε α × State α) :=
  match v.call with
  | .hook .. => none
  | c => some (c, v.before.state)

/-- The way of a run: the calls of its solver and its criterion, each with the state in which it is
made. -/
def way (vs : List (Visit ε α)) : List (Call ε α × State α) := vs.filterMap Visit.station?

omit [Scalar α] in
theorem way_append (vs ws : List (Visit ε α)) : way (vs ++ ws) = way vs ++ way ws :=
  List.filterMap_append

section Follows
variable {β γ : Type}

/-- Whenever the one returns, so does the other from a session that matches, the same way and with
the same answer. -/
def Follows (keep : List Nat) (w w' : Narrated.Tale ε α β) : Prop :=
  ∀ s s', s.Matches keep s' → ∀ vs b t, w s = (vs, .ok b t) →
    ∃ vs' t', w' s' = (vs', .ok b t') ∧ t.Matches keep t' ∧ way vs' = way vs

omit [Scalar α] in
theorem Follows.pure (b : β) : Follows keep (Pure.pure b : Narrated.Tale ε α β) (Pure.pure b) := by
  intro s s' h vs c t hc
  obtain ⟨rfl, rfl, rfl⟩ := Scribe.pure_eq_ok_iff.mp hc
  exact ⟨[], s', rfl, h, rfl⟩

omit [Scalar α] in
theorem Follows.bind {w w' : Narrated.Tale ε α β} {f f' : β → Narrated.Tale ε α γ}
    (hw : Follows keep w w') (hf : ∀ b, Follows keep (f b) (f' b)) :
    Follows keep (w >>= f) (w' >>= f') := by
  intro s s' h vs c t hc
  obtain ⟨b, u, fs, gs, hu, ht, rfl⟩ := Scribe.bind_eq_ok_iff.mp hc
  obtain ⟨fs', u', hu', hmatches, hfs⟩ := hw s s' h fs b u hu
  obtain ⟨gs', t', ht', hend, hgs⟩ := hf b u u' hmatches gs c t ht
  refine ⟨fs' ++ gs', t', Scribe.bind_eq_ok_iff.mpr ⟨b, u', fs', gs', hu', ht', rfl⟩, hend, ?_⟩
  rw [way_append, way_append, hfs, hgs]

omit [Scalar α] in
theorem Follows.tacit {m : Run ε α β} (hm : Mirrored (Session.Matches keep) m) :
    Follows keep (Scribe.tacit m) (Scribe.tacit m) := by
  intro s s' h vs b t hb
  obtain ⟨hrun, rfl⟩ := Scribe.tacit_eq_ok_iff.mp hb
  obtain ⟨t', ht', hend⟩ := hm s s' h b t hrun
  exact ⟨[], t', Scribe.tacit_eq_ok_iff.mpr ⟨ht', rfl⟩, hend, rfl⟩

omit [Scalar α] in
theorem Follows.reading {f f' : Session ε α → Narrated.Tale ε α β}
    (hf : ∀ s, Follows keep (f s) (f' s))
    (hsame : ∀ s s', s.Matches keep s' → f' s' = f' s) :
    Follows keep (Scribe.tacit get >>= f) (Scribe.tacit get >>= f') := by
  intro s s' h vs b t hb
  obtain ⟨_, _, hget, hthen⟩ := Scribe.tacit_bind_eq_ok_iff.mp hb
  cases hget
  obtain ⟨vs', t', ht', hend, hway⟩ := hf s s s' h vs b t hthen
  rw [← hsame s s' h] at ht'
  exact ⟨vs', t', Scribe.tacit_bind_eq_ok_iff.mpr ⟨s', s', rfl, ht'⟩, hend, hway⟩

theorem follows_visit {c : Call ε α}
    (hc : Mirrored (Session.Matches keep) (c.perform p o solver)) :
    Follows keep (Narrated.visit p o solver c) (Narrated.visit p o solver c) := by
  intro s s' h vs b t hb
  obtain ⟨hperform, rfl⟩ := visit_eq_ok_iff.mp hb
  obtain ⟨t', ht', hend⟩ := hc s s' h b t hperform
  refine ⟨_, t', visit_eq_ok_iff.mpr ⟨ht', rfl⟩, hend, ?_⟩
  have hstation : Visit.station? ⟨c, s', .ok b t'⟩ = Visit.station? ⟨c, s, .ok b t⟩ := by
    simp only [Visit.station?, h.state]
  rw [way, way, List.filterMap_cons, List.filterMap_cons, hstation]

theorem follows_other {c : Call ε α} (hc : ∀ phase k d, c ≠ .hook phase k d) :
    Follows keep (Narrated.visit p o solver c) (Narrated.visit p o solver c) :=
  follows_visit (Session.Matches.mirrored
    (twin_perform (Observing.Agrees.respected keep) fun phase k d h => absurd h (hc phase k d)))

theorem follows_unseen {phase : Phase} {k : Nat} {d : Decorator ε α} (hd : d.Library)
    (hcost : p.Undisturbing) (hunseen : ∀ i ∈ keep, i ∉ d.ids) {w w' : Narrated.Tale ε α β}
    (hw : Follows keep w w') :
    Follows keep (Narrated.visit p o solver (.hook phase k d) >>= fun _ => w) w' := by
  intro s s' h vs b t hb
  obtain ⟨c, u, ws, hperform, ht, rfl⟩ := visit_bind_eq_ok_iff.mp hb
  obtain ⟨v, htell, rfl⟩ := tell_of_perform hperform
  have hagrees := Decorator.agrees_of_unseen hd hcost hunseen htell
  have hmatches : ((Session.observing ε α).set v s).Matches keep s' :=
    ⟨h.settings, h.state, h.nodes, h.journal, hagrees.symm.trans h.observing⟩
  obtain ⟨ws', t', ht', hend, hway⟩ := hw _ s' hmatches ws b t ht
  exact ⟨ws', t', ht', hend, hway⟩

end Follows

/-- A chain without some of the decorators that nobody sees. -/
inductive Thinned (keep : List Nat) : List (Decorator ε α) → List (Decorator ε α) → Prop
  | nil : Thinned keep [] []
  | seen {g : RecordAction} {ds ds' : List (Decorator ε α)} (hg : g.ids ⊆ keep)
      (hds : Thinned keep ds ds') : Thinned keep (.record g :: ds) (.record g :: ds')
  | unseen {d : Decorator ε α} {ds ds' : List (Decorator ε α)} (hd : d.Library)
      (hunseen : ∀ i ∈ keep, i ∉ d.ids) (hds : Thinned keep ds ds') : Thinned keep (d :: ds) ds'

section Thinned

omit [Scalar α] in
theorem thinned_nil (library : ∀ d ∈ chain, d.Library) : Thinned [] chain [] := by
  induction chain with
  | nil => exact .nil
  | cons d ds ih =>
    have hds := ih fun e he => library e (List.mem_cons_of_mem d he)
    exact .unseen (library d List.mem_cons_self) (fun i hi => absurd hi List.not_mem_nil) hds

omit [Scalar α] in
theorem thinned_records (library : ∀ d ∈ chain, d.Library)
    (hseen : ∀ g ∈ Decorator.records chain, g.ids ⊆ keep)
    (hunseen : ∀ a, .debug a ∈ chain → ∀ i ∈ keep, i ∉ a.ids) :
    Thinned keep chain ((Decorator.records chain).map .record) := by
  induction chain with
  | nil => exact .nil
  | cons d ds ih =>
    have hlibrary := library d List.mem_cons_self
    have hrest (h : ∀ g ∈ Decorator.records ds, g.ids ⊆ keep) :
        Thinned keep ds ((Decorator.records ds).map .record) :=
      ih (fun e he => library e (List.mem_cons_of_mem d he)) h
        fun a ha => hunseen a (List.mem_cons_of_mem d ha)
    cases d with
    | plain => exact .unseen hlibrary (fun _ _ => List.not_mem_nil) (hrest hseen)
    | debug a => exact .unseen hlibrary (hunseen a List.mem_cons_self) (hrest hseen)
    | record g =>
      obtain ⟨hg, hothers⟩ := List.forall_mem_cons.mp hseen
      exact .seen hg (hrest hothers)
    | custom className fields hook => exact absurd hlibrary id

omit [Scalar α] in
theorem thinned_of_orderly (orderly : Decorator.Orderly chain) :
    Thinned ((Decorator.records chain).flatMap RecordAction.ids) chain
      ((Decorator.records chain).map .record) := by
  refine thinned_records orderly.library (fun g hg i hi => ?_) fun a ha i hi => ?_
  · exact List.mem_flatMap.mpr ⟨g, hg, hi⟩
  · obtain ⟨g, hg, hi⟩ := List.mem_flatMap.mp hi
    exact orderly.separate a ha g hg i hi

end Thinned

section Runs
variable (hcost : p.Undisturbing) (thinned : Thinned keep chain chain')
include hcost thinned

theorem follows_hooks (phase : Phase) (k : Nat) :
    Follows keep (Narrated.visitEach p o solver (hooks chain phase k))
      (Narrated.visitEach p o solver (hooks chain' phase k)) := by
  induction thinned with
  | nil => exact .pure ()
  | @seen g ds ds' hg hds ih =>
    have hwatchers : g.watchers ⊆ keep := fun i hi => hg (g.watchers_subset_ids hi)
    refine .bind (follows_visit (Session.Matches.mirrored (twin_hook fun s => ?_))) fun _ => ih
    exact Decorator.twin_tell (Observing.Agrees.respected keep) trivial (.inr hwatchers)
  | unseen hd hunseen hds ih => exact follows_unseen hd hcost hunseen ih

theorem follows_pass (k : Nat) :
    Follows keep (Narrated.pass p o chain solver k) (Narrated.pass p o chain' solver k) := by
  refine .reading (fun before => ?_) fun s s' h => by rw [h.state]
  refine .bind (follows_other (Call.step_ne_hook k)) fun _ => ?_
  refine .bind (.tacit (Session.Matches.mirrored (twin_measure _ k))) fun change => ?_
  refine .bind (follows_hooks hcost thinned .iteration k) fun _ => ?_
  exact .tacit (Session.Matches.mirrored (twin_note _))

theorem follows_onward (fuel done : Nat) (stop : Bool) :
    Follows keep (Narrated.onward p o chain solver fuel done stop)
      (Narrated.onward p o chain' solver fuel done stop) := by
  induction fuel, done, stop using Narrated.onward.induct with
  | case1 fuel done =>
    rw [Narrated.onward, Narrated.onward]
    exact .pure done
  | case2 done =>
    intro s s' _ vs n t h
    cases (Scribe.tacit_eq_ok_iff.mp h).1
  | case3 fuel done ih =>
    rw [Narrated.onward, Narrated.onward]
    refine .bind (follows_pass hcost thinned (done + 1)) fun _ => ?_
    exact .bind (follows_other (Call.judge_ne_hook _)) fun stop => ih stop

theorem follows_course (fuel : Nat) :
    Follows keep (Narrated.course p o chain solver fuel) (Narrated.course p o chain' solver fuel) := by
  refine .bind (follows_hooks hcost thinned .start 0) fun _ => ?_
  refine .bind (.tacit (Session.Matches.mirrored (twin_note _))) fun _ => ?_
  refine .bind (follows_other (Call.judge_ne_hook 0)) fun stop => ?_
  refine .bind (follows_onward hcost thinned fuel 0 stop) fun n => ?_
  refine .bind (.tacit (Session.Matches.mirrored (twin_close n))) fun _ => ?_
  exact follows_hooks hcost thinned .stop n

theorem follows_solve (fuel : Nat) :
    Follows keep (Narrated.solve p o chain solver fuel) (Narrated.solve p o chain' solver fuel) := by
  refine .bind (.tacit (Session.Matches.mirrored twin_validate)) fun _ => ?_
  refine .bind (.tacit (Session.Matches.mirrored (twin_advance _))) fun _ => ?_
  refine .bind (follows_other Call.prepare_ne_hook) fun _ => ?_
  exact follows_course hcost thinned fuel

theorem solve_of_thinned {fuel : Nat} (h : solve fuel p o chain solver s = .ok () t) :
    ∃ t', solve fuel p o chain' solver s = .ok () t' ∧ t.Matches keep t' ∧
      way (history fuel p o chain' solver s) = way (history fuel p o chain solver s) := by
  obtain ⟨vs', t', hrun, hend, hway⟩ := follows_solve hcost thinned fuel s s (.refl keep s) _ _ _
    (narrated_of_solve h)
  have hsolve : solve fuel p o chain' solver s = .ok () t' := by
    rw [← outcome_solve, Scribe.outcome, hrun]
  have hhistory : history fuel p o chain' solver s = vs' := congrArg Prod.fst hrun
  rw [hhistory]
  exact ⟨t', hsolve, hend, hway⟩

end Runs

theorem solve_of_records (hcost : p.Undisturbing) (orderly : Decorator.Orderly chain) {fuel : Nat}
    (h : solve fuel p o chain solver s = .ok () t) :
    ∃ t', solve fuel p o ((Decorator.records chain).map .record) solver s = .ok () t' ∧
      ∀ g ∈ Decorator.records chain, ∀ i ∈ g.ids, t'.memory.get i = t.memory.get i := by
  obtain ⟨t', ht', hmatches, -⟩ := solve_of_thinned hcost (thinned_of_orderly orderly) h
  exact ⟨t', ht', fun g hg i hi => hmatches.memory (List.mem_flatMap.mpr ⟨g, hg, hi⟩)⟩

/-- Observation does not change a run: without its decorators it goes the same way and ends in the
same state. It returns with its records alone as well, and these do not depend on the debug output
beside them nor on its place in the chain. -/
theorem undisturbed_law (hcost : p.Undisturbing) (library : ∀ d ∈ chain, d.Library) {fuel : Nat}
    (h : solve fuel p o chain solver s = .ok () t) :
    (∃ t', solve fuel p o [] solver s = .ok () t' ∧ t'.state = t.state ∧ t'.env = t.env ∧
      way (history fuel p o [] solver s) = way (history fuel p o chain solver s)) ∧
    (Decorator.Orderly chain →
      (∃ t', solve fuel p o ((Decorator.records chain).map .record) solver s = .ok () t') ∧
      ∀ chain' t', Decorator.Orderly chain' →
        Decorator.records chain' = Decorator.records chain →
        solve fuel p o chain' solver s = .ok () t' →
        (∀ g ∈ Decorator.records chain, ∀ b ∈ g.nodes,
          b.recorded t'.memory = b.recorded t.memory) ∧
        ∀ token, Decorator.getRecord t'.memory token chain' =
          Decorator.getRecord t.memory token chain) := by
  constructor
  · obtain ⟨t', ht', hmatches, hway⟩ := solve_of_thinned hcost (thinned_nil library) h
    exact ⟨t', ht', hmatches.state, hmatches.env, hway⟩
  · intro orderly
    obtain ⟨u, hu, hrecorded⟩ := solve_of_records hcost orderly h
    refine ⟨⟨u, hu⟩, fun chain' t' orderly' hrecords h' => ?_⟩
    -- both runs leave what the one with the records alone leaves
    obtain ⟨u', hu', hrecorded'⟩ := solve_of_records hcost orderly' h'
    rw [hrecords] at hu' hrecorded'
    rw [hu] at hu'
    cases hu'
    have hmemory : ∀ g ∈ Decorator.records chain, ∀ i ∈ g.ids,
        (t'.memory.get i).recorded = (t.memory.get i).recorded := by
      intro g hg i hi
      rw [← hrecorded' g hg i hi, hrecorded g hg i hi]
    refine ⟨fun g hg b hb => ?_, Decorator.getRecord_congr hrecords hmemory⟩
    refine RecordAction.recorded_congr fun i hi => hmemory g hg i ?_
    exact RecordAction.ids_subset_of_mem_nodes hb hi

def diary : RecordAction := .group 0 [.leaf 1 (.quantity .cost) .always]

def inside : List (Decorator Unit Float) :=
  [.debug (.group [.leaf 2 (.cost "cost ") .always none, .leaf 3 (.change "moved ") .always none]),
    .record diary]

def outside : List (Decorator Unit Float) :=
  [.record diary, .debug (.every .everySecond (.leaf 4 .iterate .always none))]

theorem undisturbed_law_counting :
    ∃ t t₀ t', solve 3 line twice inside counting origin = .ok () t ∧
      solve 3 line twice [] counting origin = .ok () t₀ ∧ t₀.state = t.state ∧
      way (history 3 line twice [] counting origin) =
        way (history 3 line twice inside counting origin) ∧
      solve 3 line twice outside counting origin = .ok () t' ∧
      (diary.recorded t'.memory).length = 2 ∧
      ∀ token, Decorator.getRecord t'.memory token outside =
        Decorator.getRecord t.memory token inside := by
  obtain ⟨_, t, ht, -⟩ : ∃ b t, solve 3 line twice inside counting origin = .ok b t ∧ True := by
    decide +kernel
  obtain ⟨_, t', ht', hlength⟩ : ∃ b t', solve 3 line twice outside counting origin = .ok b t' ∧
      (diary.recorded t'.memory).length = 2 := by
    decide +kernel
  have hcost : line.Undisturbing := by
    intro x env c env' h
    cases h
    rfl
  have orderly : Decorator.Orderly inside := by
    refine ⟨List.forall_mem_cons.mpr ⟨trivial, List.forall_mem_singleton.mpr trivial⟩, ?_⟩
    intro a ha g hg
    rcases List.mem_cons.mp ha with ha | ha
    · cases ha
      rw [List.mem_singleton.mp hg]
      decide
    · cases List.mem_singleton.mp ha
  have orderly' : Decorator.Orderly outside := by
    refine ⟨List.forall_mem_cons.mpr ⟨trivial, List.forall_mem_singleton.mpr trivial⟩, ?_⟩
    intro a ha g hg
    rcases List.mem_cons.mp ha with ha | ha
    · cases ha
    · cases List.mem_singleton.mp ha
      rw [List.mem_singleton.mp hg]
      decide
  obtain ⟨⟨t₀, ht₀, hstate, -, hway⟩, hrecords⟩ := undisturbed_law hcost orderly.library ht
  obtain ⟨-, htoken⟩ := (hrecords orderly).2 outside t' orderly' rfl ht'
  exact ⟨t, t₀, t', ht, ht₀, hstate, hway, ht', hlength, htoken⟩

end Solver
end Geodescent
