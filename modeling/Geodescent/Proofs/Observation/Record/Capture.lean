import Geodescent.Proofs.Transcript
import Geodescent.Proofs.Observation.Record.Tree
import Geodescent.Record.Run

/-! Running a record action, with a list of the calls that ask a leaf for its value. Leaving the list
out gives the run: `outcome_run`. Asking a leaf changes nothing that observers remember, and
refreshing a tree nothing but the points that its watchers remember. -/
namespace Geodescent

/-- A call that asks a leaf for its value, with where it began and what became of it. -/
structure Capture (ε α : Type) where
  id : Nat
  kind : RecordKind
  before : Observing ε α
  outcome : EStateM.Result (Fault α) (Observing ε α) (Datum α)

namespace Capture
variable {ε α : Type}

def site (c : Capture ε α) : Nat × RecordKind := (c.id, c.kind)

def value? (c : Capture ε α) : Option (Datum α) :=
  match c.outcome with
  | .ok d _ => some d
  | .error .. => none

def valuesOf (cs : List (Capture ε α)) (id : Nat) : List (Datum α) :=
  (cs.filter fun c => c.id = id).filterMap value?

theorem valuesOf_append (cs cs' : List (Capture ε α)) (id : Nat) :
    valuesOf (cs ++ cs') id = valuesOf cs id ++ valuesOf cs' id := by
  simp [valuesOf]

theorem valuesOf_eq_nil {cs : List (Capture ε α)} {id : Nat} (h : id ∉ cs.map Capture.id) :
    valuesOf cs id = [] := by
  have hcs : cs.filter (fun c => c.id = id) = [] := by
    rw [List.filter_eq_nil_iff]
    intro c hc hid
    exact h (List.mem_map.mpr ⟨c, hc, by simpa using hid⟩)
  rw [valuesOf, hcs, List.filterMap_nil]

end Capture

namespace RecordAction
variable {ε α : Type} [Scalar α]

namespace Narrated

abbrev Recording (ε α β : Type) := Scribe (Capture ε α) (Fault α) (Observing ε α) β

def keep (t : Moment ε α) (id : Nat) (kind : RecordKind) (cadence : Cadence) :
    Recording ε α (List (Datum α)) :=
  if leafActs cadence t.iteration t.stopped then do
    let d ← Scribe.entering (fun o r => ⟨id, kind, o, r⟩) (capture t id kind)
    Scribe.tacit (modify (Observing.record id d))
    pure [d]
  else pure []

def runLeaf (t : Moment ε α) (id : Nat) (kind : RecordKind) (cadence : Cadence) :
    Recording ε α (List (Datum α)) := do
  let captured ← keep t id kind cadence
  Scribe.tacit (if !t.stopped then refreshLeaf t id kind else pure ())
  pure captured

mutual
def run (t : Moment ε α) : RecordAction → Recording ε α (List (Datum α))
  | .leaf id kind cadence => runLeaf t id kind cadence
  | .group id members => do
    let captured ← runEach t members
    Scribe.tacit (enter id captured)
  | .every cadence action =>
    if t.stopped || cadence.acts t.iteration false then run t action
    else do
      Scribe.tacit (refresh t action)
      pure []

def runEach (t : Moment ε α) : List RecordAction → Recording ε α (List (Datum α))
  | [] => pure []
  | a :: as => do
    let first ← run t a
    let rest ← runEach t as
    pure (first ++ rest)
end

end Narrated

section Outcome
variable (t : Moment ε α)

theorem outcome_runLeaf (id : Nat) (kind : RecordKind) (cadence : Cadence) :
    (Narrated.runLeaf t id kind cadence).outcome = runLeaf t id kind cadence := by
  unfold Narrated.runLeaf Narrated.keep runLeaf
  cases leafActs cadence t.iteration t.stopped with
  | true => cases t.stopped <;> simp
  | false => cases t.stopped <;> simp

theorem outcome_runEach {as : List RecordAction}
    (h : ∀ a ∈ as, (Narrated.run t a).outcome = run t a) :
    (Narrated.runEach t as).outcome = runEach t as := by
  induction as with
  | nil => rfl
  | cons a as ih =>
    have has := ih fun b hb => h b (List.mem_cons_of_mem a hb)
    simp only [Narrated.runEach, runEach, Scribe.outcome_bind, Scribe.outcome_pure, has,
      h a List.mem_cons_self]

theorem outcome_run (a : RecordAction) : (Narrated.run t a).outcome = run t a := by
  induction a using induct with
  | leaf id kind cadence =>
    rw [Narrated.run, run]
    exact outcome_runLeaf t id kind cadence
  | group id members ih =>
    have hmembers := outcome_runEach t ih
    simp only [Narrated.run, run, Scribe.outcome_bind, Scribe.outcome_tacit, hmembers]
  | every cadence a ih =>
    rw [Narrated.run, run]
    split
    · exact ih
    · simp only [Scribe.outcome_bind, Scribe.outcome_tacit, Scribe.outcome_pure]

variable {t} in
theorem exists_narrated {a : RecordAction} {o o' : Observing ε α} {ds : List (Datum α)}
    (h : run t a o = .ok ds o') : ∃ cs, Narrated.run t a o = (cs, .ok ds o') := by
  rw [← outcome_run] at h
  exact ⟨_, Prod.ext rfl h⟩

end Outcome

section Parts
variable {t : Moment ε α} {o o' : Observing ε α} {id : Nat} {kind : RecordKind}
  {cadence : Cadence}

theorem capture_change_of_none (h : (o.memory.get id).previous = .none) :
    capture t id (.quantity .change) o =
      (settled (refusing t.state.lastChange.toReal) >>= fun change => pure (.real change)) o := by
  rw [capture, get_bind, h]

theorem capture_change_of_seen (h : (o.memory.get id).previous ≠ .none) :
    capture t id (.quantity .change) o =
      (settled (Observing.moved t (o.memory.get id).previous) >>= fun change =>
        pure (.real change)) o := by
  rw [capture, get_bind]
  generalize (o.memory.get id).previous = x at h ⊢
  cases x with
  | none => exact absurd rfl h
  | _ => rfl

theorem capture_ok {d : Datum α} (h : capture t id kind o = .ok d o') :
    o'.memory = o.memory ∧ o'.console = o.console ∧ (t.problem.Undisturbing → o'.env = o.env) := by
  rcases kind with token | _
  · cases token with
    | cost =>
      obtain ⟨_, u, hcost, hpure⟩ := sequence_eq_ok_iff.mp h
      cases hpure
      exact Observing.cost_ok hcost
    | change =>
      by_cases hnone : (o.memory.get id).previous = .none
      · rw [capture_change_of_none hnone] at h
        obtain ⟨_, -, hpure⟩ := settled_bind_eq_ok_iff.mp h
        cases hpure
        exact ⟨rfl, rfl, fun _ => rfl⟩
      · rw [capture_change_of_seen hnone] at h
        obtain ⟨_, -, hpure⟩ := settled_bind_eq_ok_iff.mp h
        cases hpure
        exact ⟨rfl, rfl, fun _ => rfl⟩
    | iteration | iterate | stop =>
      cases h
      exact ⟨rfl, rfl, fun _ => rfl⟩
    | gradientNorm | stepsize =>
      obtain ⟨_, -, hpure⟩ := settled_bind_eq_ok_iff.mp h
      cases hpure
      exact ⟨rfl, rfl, fun _ => rfl⟩
  · cases h

omit [Scalar α] in
theorem settled_pure_error {β γ : Type} {answer : Except (Fault α) β} {f : β → γ} {e : Fault α}
    (h : (settled answer >>= fun b => pure (f b)) o = .error e o') : o' = o := by
  rcases sequence_eq_error_iff.mp h with hsettled | ⟨b, u, -, hpure⟩
  · exact (settled_eq_error_iff.mp hsettled).2
  · cases hpure

theorem capture_error {e : Fault α} (h : capture t id kind o = .error e o') :
    o'.memory = o.memory := by
  rcases kind with token | _
  · cases token with
    | cost =>
      rcases sequence_eq_error_iff.mp h with hcost | ⟨c, u, -, hpure⟩
      · obtain ⟨env, -, rfl⟩ := (Part.run_eq_error_iff _).mp hcost
        rfl
      · cases hpure
    | change =>
      by_cases hnone : (o.memory.get id).previous = .none
      · rw [capture_change_of_none hnone] at h
        rw [settled_pure_error h]
      · rw [capture_change_of_seen hnone] at h
        rw [settled_pure_error h]
    | iteration | iterate | stop => cases h
    | gradientNorm | stepsize => rw [settled_pure_error h]
  · cases h
    rfl

theorem leafActs_iff {k : Int} {stopped : Bool} : leafActs cadence k stopped = true ↔
    (stopped = false → 0 < k) ∧ (Leaf.mk id kind cadence []).Acts k stopped := by
  rw [Leaf.acts_of_no_wrappers]
  cases stopped with
  | true => simp [leafActs]
  | false => simp [leafActs]

omit [Scalar α] in
theorem refreshLeaf_ok (t : Moment ε α) (id : Nat) (kind : RecordKind) (cadence : Cadence)
    (o : Observing ε α) : ∃ o', refreshLeaf t id kind o = .ok () o' ∧
      Observing.Refreshed t.state.x (leaf id kind cadence).watchers o o' := by
  by_cases h : kind = .quantity .change
  · subst h
    exact ⟨_, rfl, Observing.refreshed_remember id t.state.x o⟩
  · have hwatchers : (leaf id kind cadence).watchers = [] := by
      simp [watchers, watchersOf, leaves, h]
    refine ⟨o, ?_, ?_⟩
    · unfold refreshLeaf
      split
      · exact absurd rfl h
      · rfl
    · rw [hwatchers]
      exact .refl _ o

omit [Scalar α] in
theorem refreshEach_ok {as : List RecordAction}
    (h : ∀ a ∈ as, ∀ o, ∃ o', refresh t a o = .ok () o' ∧
      Observing.Refreshed t.state.x a.watchers o o') (o : Observing ε α) :
    ∃ o', refreshEach t as o = .ok () o' ∧
      Observing.Refreshed t.state.x (watchersOf (leavesEach as)) o o' := by
  induction as generalizing o with
  | nil => exact ⟨o, rfl, .refl _ o⟩
  | cons a as ih =>
    obtain ⟨u, ha, hu⟩ := h a List.mem_cons_self o
    obtain ⟨o', has, ho'⟩ := ih (fun b hb => h b (List.mem_cons_of_mem a hb)) u
    refine ⟨o', sequence_eq_ok_iff.mpr ⟨(), u, ha, has⟩, ?_⟩
    rw [leavesEach, watchersOf_append]
    exact hu.trans ho'

omit [Scalar α] in
theorem refresh_ok (t : Moment ε α) (a : RecordAction) (o : Observing ε α) :
    ∃ o', refresh t a o = .ok () o' ∧ Observing.Refreshed t.state.x a.watchers o o' := by
  induction a using induct generalizing o with
  | leaf id kind cadence => exact refreshLeaf_ok t id kind cadence o
  | group id members ih => exact refreshEach_ok ih o
  | every cadence a ih =>
    have hwatchers : (every cadence a).watchers = a.watchers := watchersOf_under cadence a.leaves
    rw [hwatchers]
    exact ih o

end Parts

end RecordAction
end Geodescent
