import Geodescent.Proofs.Observation.Chain
import Geodescent.Proofs.Twin

/-! What the actions of observers depend on. A relation between what two observers can see is
respected if it says enough of the points that the leaves `ws` remember and is kept by all that
actions do. Actions whose watchers are among `ws` then do the same on both sides, and when a run
starts, also those that remember other points. -/
namespace Geodescent
variable {ε α : Type}

/-- A relation that survives whatever actions do, and in which the surroundings are the same, and
the points that the leaves `ws` remember. -/
structure Observing.Respected (ws : List Nat) (R : Observing ε α → Observing ε α → Prop) :
    Prop where
  env : ∀ {o o'}, R o o' → o'.env = o.env
  previous : ∀ {o o'}, R o o' → ∀ i ∈ ws, (o'.memory.get i).previous = (o.memory.get i).previous
  surrounded : ∀ {o o'}, R o o' → ∀ env,
    R ((surroundings ε α).set env o) ((surroundings ε α).set env o')
  remember : ∀ {o o'}, R o o' → ∀ id x, R (remember id x o) (remember id x o')
  record : ∀ {o o'}, R o o' → ∀ id d, R (record id d o) (record id d o')
  erase : ∀ {o o'}, R o o' → ∀ id, R (erase id o) (erase id o')
  write : ∀ {o o'}, R o o' → ∀ outlet text, R (write outlet text o) (write outlet text o')

section Respected
variable {ws : List Nat} {R : Observing ε α → Observing ε α → Prop}
  (respected : Observing.Respected ws R) {t : Moment ε α}
include respected

theorem Observing.Respected.twin_cost : Twin R R R (cost t) (cost t) :=
  .shared _ (fun _ _ h => (respected.env h).symm) fun _ _ env h => respected.surrounded h env

namespace RecordAction
variable [Scalar α]

theorem twin_capture {id : Nat} {kind : RecordKind}
    (hid : kind = .quantity .change → id ∈ ws) :
    Twin R R R (capture t id kind) (capture t id kind) := by
  rcases kind with token | _
  · cases token with
    | cost => exact .bind respected.twin_cost fun value => .pure _
    | gradientNorm | stepsize =>
      exact .bind (.settled _ fun _ _ h => h) fun value => .pure _
    | iteration | iterate | stop => exact .pure _
    | change =>
      intro o o' h
      have hsame := respected.previous h id (hid rfl)
      by_cases hnone : (o.memory.get id).previous = .none
      · rw [capture_change_of_none hnone, capture_change_of_none (hsame.trans hnone)]
        exact (Twin.bind (.settled _ fun _ _ h => h) fun change => .pure _) o o' h
      · rw [capture_change_of_seen hnone, capture_change_of_seen (by rw [hsame]; exact hnone),
          hsame]
        exact (Twin.bind (.settled _ fun _ _ h => h) fun change => .pure _) o o' h
  · exact .throw _ fun _ _ h => h

omit [Scalar α] in
theorem twin_refreshLeaf (id : Nat) (kind : RecordKind) :
    Twin R R R (refreshLeaf t id kind) (refreshLeaf t id kind) := by
  unfold refreshLeaf
  split
  · exact .modify fun _ _ h => respected.remember h id _
  · exact .pure ()

omit [Scalar α] respected in
theorem twin_refreshEach {as : List RecordAction}
    (h : ∀ a ∈ as, Twin R R R (refresh t a) (refresh t a)) :
    Twin R R R (refreshEach t as) (refreshEach t as) := by
  induction as with
  | nil => exact .pure ()
  | cons a as ih =>
    have hrest := ih fun b hb => h b (List.mem_cons_of_mem a hb)
    exact .bind (h a List.mem_cons_self) fun _ => hrest

omit [Scalar α] in
theorem twin_refresh (a : RecordAction) : Twin R R R (refresh t a) (refresh t a) := by
  induction a using induct with
  | leaf id kind cadence => exact twin_refreshLeaf respected id kind
  | group id members ih => exact twin_refreshEach ih
  | every cadence a ih => exact ih

omit [Scalar α] respected in
theorem respected_resetEach {as : List RecordAction}
    (h : ∀ a ∈ as, ∀ {o o'}, R o o' → R (reset a o) (reset a o')) {o o' : Observing ε α}
    (hR : R o o') : R (resetEach as o) (resetEach as o') := by
  induction as generalizing o o' with
  | nil => exact hR
  | cons a as ih =>
    exact ih (fun b hb => h b (List.mem_cons_of_mem a hb)) (h a List.mem_cons_self hR)

omit [Scalar α] in
theorem respected_reset (a : RecordAction) {o o' : Observing ε α} (hR : R o o') :
    R (a.reset o) (a.reset o') := by
  induction a using induct generalizing o o' with
  | leaf id kind cadence => exact respected.erase hR id
  | group id members ih => exact respected_resetEach ih (respected.erase hR id)
  | every cadence a ih => exact ih hR

theorem twin_runLeaf {id : Nat} {kind : RecordKind} {cadence : Cadence}
    (h : (leaf id kind cadence).watchers ⊆ ws) :
    Twin R R R (runLeaf t id kind cadence) (runLeaf t id kind cadence) := by
  have hid : kind = .quantity .change → id ∈ ws := by
    rintro rfl
    exact h (List.mem_singleton_self id)
  have hkeep : Twin R R R (Narrated.keep t id kind cadence).outcome
      (Narrated.keep t id kind cadence).outcome := by
    unfold Narrated.keep
    split
    · simp only [Scribe.outcome_bind, Scribe.outcome_entering, Scribe.outcome_tacit]
      refine .bind (twin_capture respected hid) fun d => ?_
      exact .bind (S := R) (.modify fun _ _ h => respected.record h id d) fun _ => .pure [d]
    · exact .pure []
  have hrefresh : Twin R R R (if !t.stopped then refreshLeaf t id kind else pure ())
      (if !t.stopped then refreshLeaf t id kind else pure ()) := by
    split
    · exact twin_refreshLeaf respected id kind
    · exact .pure ()
  rw [← outcome_runLeaf]
  simp only [Narrated.runLeaf, Scribe.outcome_bind, Scribe.outcome_tacit]
  exact .bind hkeep fun captured => .bind hrefresh fun _ => .pure captured

omit [Scalar α] in
theorem twin_enter (id : Nat) (captured : List (Datum α)) :
    Twin R R R (enter id captured : Observe ε α (List (Datum α))) (enter id captured) := by
  cases captured with
  | nil => exact .pure []
  | cons d rest =>
    exact .bind (S := R) (.modify fun _ _ h => respected.record h id _) fun _ => .pure _

omit respected in
theorem twin_runEach {as : List RecordAction} (h : ∀ a ∈ as, Twin R R R (run t a) (run t a)) :
    Twin R R R (runEach t as) (runEach t as) := by
  induction as with
  | nil =>
    rw [runEach]
    exact .pure []
  | cons a as ih =>
    have hrest := ih fun b hb => h b (List.mem_cons_of_mem a hb)
    rw [runEach]
    exact .bind (h a List.mem_cons_self) fun first => .bind hrest fun rest => .pure _

theorem twin_run {a : RecordAction} (h : a.watchers ⊆ ws) : Twin R R R (run t a) (run t a) := by
  induction a using induct with
  | leaf id kind cadence =>
    rw [run]
    exact twin_runLeaf respected h
  | group id members ih =>
    rw [run]
    refine .bind (twin_runEach fun a ha => ih a ha fun i hi => h ?_) fun captured =>
      twin_enter respected id captured
    exact watchers_subset_group ha hi
  | every cadence a ih =>
    have hwatchers : (every cadence a).watchers = a.watchers := watchersOf_under cadence a.leaves
    rw [hwatchers] at h
    rw [run]
    split
    · exact ih h
    · exact .bind (twin_refresh respected a) fun _ => .pure []

end RecordAction

namespace DebugAction
variable [Scalar α]

theorem twin_content {id : Nat} {kind : DebugKind}
    (h : t.iteration = 0 ∨ (Watches kind = true → id ∈ ws)) :
    Twin R R R (content t id kind) (content t id kind) := by
  cases kind with
  | cost label => exact .bind respected.twin_cost fun value => .pure _
  | iterate | gradientNorm | stop => exact .bind (.settled _ fun _ _ h => h) fun value => .pure _
  | stepsize =>
    rw [content]
    split
    · exact .bind (.settled _ fun _ _ h => h) fun step => .pure _
    · exact .pure none
  | iteration | divider text | silent => exact .pure _
  | change label =>
    -- the only text that depends on what is remembered
    intro o o' hR
    rcases h with hzero | hid
    · have hnothing : ∀ u : Observing ε α, content t id (.change label) u = .ok none u := by
        intro u
        by_cases hnone : (u.memory.get id).previous = .none
        · exact content_change_of_none hnone
        · have hpositive : ¬ 0 < t.iteration := by omega
          rw [content_change_of_seen hnone, if_neg hpositive]
          rfl
      rw [hnothing o, hnothing o']
      exact .ok none hR
    · have hsame := respected.previous hR id (hid rfl)
      by_cases hnone : (o.memory.get id).previous = .none
      · rw [content_change_of_none hnone, content_change_of_none (hsame.trans hnone)]
        exact .ok none hR
      · rw [content_change_of_seen hnone, content_change_of_seen (by rw [hsame]; exact hnone),
          hsame]
        split
        · exact (Twin.bind (.settled _ fun _ _ h => h) fun change => .pure _) o o' hR
        · exact .ok none hR

omit [Scalar α] in
theorem twin_put (outlet : Option String) (text : Option String) :
    Twin R R R (put t outlet text) (put t outlet text) := by
  cases text with
  | none => exact .pure ()
  | some text =>
    exact .bind (.settled _ fun _ _ h => h) fun outlet =>
      .modify fun _ _ h => respected.write h outlet text

omit [Scalar α] in
theorem twin_refreshLeaf (id : Nat) (kind : DebugKind) :
    Twin R R R (refreshLeaf t id kind) (refreshLeaf t id kind) := by
  unfold refreshLeaf
  split
  · exact .modify fun _ _ h => respected.remember h id _
  · exact .pure ()

omit [Scalar α] respected in
theorem twin_refreshEach {as : List DebugAction}
    (h : ∀ a ∈ as, Twin R R R (refresh t a) (refresh t a)) :
    Twin R R R (refreshEach t as) (refreshEach t as) := by
  induction as with
  | nil => exact .pure ()
  | cons a as ih =>
    have hrest := ih fun b hb => h b (List.mem_cons_of_mem a hb)
    exact .bind (h a List.mem_cons_self) fun _ => hrest

omit [Scalar α] in
theorem twin_refresh (a : DebugAction) : Twin R R R (refresh t a) (refresh t a) := by
  induction a using induct with
  | leaf id kind cadence outlet => exact twin_refreshLeaf respected id kind
  | group members ih => exact twin_refreshEach ih
  | every cadence a ih => exact ih

theorem twin_runLeaf {id : Nat} {kind : DebugKind} {cadence : Cadence} {outlet : Option String}
    (h : t.iteration = 0 ∨ (leaf id kind cadence outlet).watchers ⊆ ws) :
    Twin R R R (runLeaf t id kind cadence outlet) (runLeaf t id kind cadence outlet) := by
  have hid : t.iteration = 0 ∨ (Watches kind = true → id ∈ ws) := by
    refine h.imp_right fun hws hwatches => hws ?_
    simp [watchers, watchersOf, leaves, hwatches]
  have hprint : Twin R R R (Narrated.print t id kind cadence outlet).outcome
      (Narrated.print t id kind cadence outlet).outcome := by
    unfold Narrated.print
    split
    · simp only [Scribe.outcome_bind, Scribe.outcome_entering, Scribe.outcome_tacit]
      exact .bind (twin_content respected hid) fun text => twin_put respected outlet text
    · exact .pure ()
  have hrefresh : Twin R R R (if !t.stopped then refreshLeaf t id kind else pure ())
      (if !t.stopped then refreshLeaf t id kind else pure ()) := by
    split
    · exact twin_refreshLeaf respected id kind
    · exact .pure ()
  rw [← outcome_runLeaf]
  simp only [Narrated.runLeaf, Scribe.outcome_bind, Scribe.outcome_tacit]
  exact .bind hprint fun _ => hrefresh

omit respected in
theorem twin_runEach {as : List DebugAction} (h : ∀ a ∈ as, Twin R R R (run t a) (run t a)) :
    Twin R R R (runEach t as) (runEach t as) := by
  induction as with
  | nil =>
    rw [runEach]
    exact .pure ()
  | cons a as ih =>
    have hrest := ih fun b hb => h b (List.mem_cons_of_mem a hb)
    rw [runEach]
    exact .bind (h a List.mem_cons_self) fun _ => hrest

theorem twin_run {a : DebugAction} (h : t.iteration = 0 ∨ a.watchers ⊆ ws) :
    Twin R R R (run t a) (run t a) := by
  induction a using induct with
  | leaf id kind cadence outlet =>
    rw [run]
    exact twin_runLeaf respected h
  | group members ih =>
    rw [run]
    refine twin_runEach fun a ha => ih a ha (h.imp_right fun hws i hi => hws ?_)
    exact watchers_subset_group ha hi
  | every cadence a ih =>
    have hwatchers : (every cadence a).watchers = a.watchers := watchersOf_under cadence a.leaves
    rw [hwatchers] at h
    rw [run]
    split
    · exact ih h
    · exact twin_refresh respected a

end DebugAction

namespace Decorator
variable [Scalar α] {phase : Phase} {d : Decorator ε α}

theorem twin_tell (library : d.Library)
    (h : (phase = .start ∧ t.iteration = 0) ∨ d.watchers ⊆ ws) :
    Twin R R R (d.tell phase t) (d.tell phase t) := by
  cases d with
  | plain => exact .pure ()
  | debug a => exact DebugAction.twin_run respected (h.imp_left And.right)
  | record g =>
    have hrun (hws : g.watchers ⊆ ws) : Twin R R R (g.run t >>= fun _ => pure ())
        (g.run t >>= fun _ => pure ()) :=
      .bind (RecordAction.twin_run respected hws) fun _ => .pure ()
    cases phase with
    | start =>
      refine .bind (S := R) (.modify fun _ _ h => ?_) fun _ => RecordAction.twin_refresh respected g
      exact RecordAction.respected_reset respected g h
    | iteration | stop => exact hrun (h.resolve_left nofun)
  | custom className fields hook => exact absurd library id

end Decorator
end Respected
end Geodescent
