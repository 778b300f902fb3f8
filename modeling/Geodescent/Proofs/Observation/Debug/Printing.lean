import Geodescent.Debug.Run
import Geodescent.Proofs.Observation.Debug.Tree
import Geodescent.Proofs.Transcript

/-! Running a debug action, with a list of the calls that ask a leaf for its text. Leaving the list
out gives the run: `outcome_run`. Asking a leaf changes nothing that observers remember and writes
nothing, and refreshing a tree changes nothing but the points that its watchers remember. -/
namespace Geodescent

/-- A call that asks a leaf for its text, with where it began and what became of it. -/
structure Printing (ε α : Type) where
  id : Nat
  printer : DebugAction.Printer
  before : Observing ε α
  outcome : EStateM.Result (Fault α) (Observing ε α) (Option String)

namespace Printing
variable {ε α : Type}

def site (g : Printing ε α) : Nat × DebugAction.Printer := (g.id, g.printer)

def text? (g : Printing ε α) : Option String :=
  match g.outcome with
  | .ok text _ => text
  | .error .. => none

end Printing

namespace DebugAction
variable {ε α : Type} [Scalar α]

namespace Narrated

abbrev Telling (ε α β : Type) := Scribe (Printing ε α) (Fault α) (Observing ε α) β

def print (t : Moment ε α) (id : Nat) (kind : DebugKind) (cadence : Cadence)
    (outlet : Option String) : Telling ε α Unit :=
  if cadence.acts t.iteration t.stopped then do
    let text ← Scribe.entering (fun o r => ⟨id, ⟨kind, outlet⟩, o, r⟩) (content t id kind)
    Scribe.tacit (put t outlet text)
  else pure ()

def runLeaf (t : Moment ε α) (id : Nat) (kind : DebugKind) (cadence : Cadence)
    (outlet : Option String) : Telling ε α Unit := do
  print t id kind cadence outlet
  Scribe.tacit (if !t.stopped then refreshLeaf t id kind else pure ())

mutual
def run (t : Moment ε α) : DebugAction → Telling ε α Unit
  | .leaf id kind cadence outlet => runLeaf t id kind cadence outlet
  | .group members => runEach t members
  | .every cadence action =>
    if t.stopped || cadence.acts t.iteration false then run t action
    else Scribe.tacit (refresh t action)

def runEach (t : Moment ε α) : List DebugAction → Telling ε α Unit
  | [] => pure ()
  | a :: as => do
    run t a
    runEach t as
end

end Narrated

section Outcome
variable (t : Moment ε α)

theorem outcome_runLeaf (id : Nat) (kind : DebugKind) (cadence : Cadence)
    (outlet : Option String) :
    (Narrated.runLeaf t id kind cadence outlet).outcome =
      runLeaf t id kind cadence outlet := by
  unfold Narrated.runLeaf Narrated.print runLeaf
  cases cadence.acts t.iteration t.stopped with
  | true => cases t.stopped <;> simp
  | false => cases t.stopped <;> simp

theorem outcome_runEach {as : List DebugAction}
    (h : ∀ a ∈ as, (Narrated.run t a).outcome = run t a) :
    (Narrated.runEach t as).outcome = runEach t as := by
  induction as with
  | nil => rfl
  | cons a as ih =>
    have has := ih fun b hb => h b (List.mem_cons_of_mem a hb)
    simp only [Narrated.runEach, runEach, Scribe.outcome_bind, has, h a List.mem_cons_self]

theorem outcome_run (a : DebugAction) : (Narrated.run t a).outcome = run t a := by
  induction a using induct with
  | leaf id kind cadence outlet =>
    rw [Narrated.run, run]
    exact outcome_runLeaf t id kind cadence outlet
  | group members ih =>
    rw [Narrated.run, run]
    exact outcome_runEach t ih
  | every cadence a ih =>
    rw [Narrated.run, run]
    split
    · exact ih
    · exact Scribe.outcome_tacit _

end Outcome

section Parts
variable {t : Moment ε α} {o o' : Observing ε α} {id : Nat} {kind : DebugKind}
  {cadence : Cadence}

theorem content_change_of_none {label : String} (h : (o.memory.get id).previous = .none) :
    content t id (.change label) o = .ok none o := by
  rw [content, get_bind, h]
  rfl

theorem content_change_of_seen {label : String} (h : (o.memory.get id).previous ≠ .none) :
    content t id (.change label) o =
      (if 0 < t.iteration then
        settled (Observing.moved t (o.memory.get id).previous) >>= fun change =>
          pure (some (label ++ Scalar.brief change))
      else pure none : Observe ε α (Option String)) o := by
  rw [content, get_bind]
  generalize (o.memory.get id).previous = x at h ⊢
  cases x with
  | none => exact absurd rfl h
  | _ => rfl

theorem content_ok {text : Option String} (h : content t id kind o = .ok text o') :
    o'.memory = o.memory ∧ o'.console = o.console ∧ (t.problem.Undisturbing → o'.env = o.env) := by
  cases kind with
  | cost label =>
    obtain ⟨_, u, hcost, hpure⟩ := sequence_eq_ok_iff.mp h
    cases hpure
    exact Observing.cost_ok hcost
  | change label =>
    by_cases hnone : (o.memory.get id).previous = .none
    · rw [content_change_of_none hnone] at h
      cases h
      exact ⟨rfl, rfl, fun _ => rfl⟩
    · rw [content_change_of_seen hnone] at h
      split at h
      · obtain ⟨_, -, hpure⟩ := settled_bind_eq_ok_iff.mp h
        cases hpure
        exact ⟨rfl, rfl, fun _ => rfl⟩
      · cases h
        exact ⟨rfl, rfl, fun _ => rfl⟩
  | stepsize =>
    rw [content] at h
    split at h
    · obtain ⟨_, -, hpure⟩ := settled_bind_eq_ok_iff.mp h
      cases hpure
      exact ⟨rfl, rfl, fun _ => rfl⟩
    · cases h
      exact ⟨rfl, rfl, fun _ => rfl⟩
  | iterate | gradientNorm | stop =>
    obtain ⟨_, -, hpure⟩ := settled_bind_eq_ok_iff.mp h
    cases hpure
    exact ⟨rfl, rfl, fun _ => rfl⟩
  | iteration | divider _ | silent =>
    cases h
    exact ⟨rfl, rfl, fun _ => rfl⟩

omit [Scalar α] in
theorem refreshLeaf_ok (t : Moment ε α) (id : Nat) (kind : DebugKind) (cadence : Cadence)
    (outlet : Option String) (o : Observing ε α) : ∃ o', refreshLeaf t id kind o = .ok () o' ∧
      Observing.Refreshed t.state.x (leaf id kind cadence outlet).watchers o o' := by
  cases kind with
  | change label => exact ⟨_, rfl, Observing.refreshed_remember id t.state.x o⟩
  | _ => exact ⟨o, rfl, .refl _ o⟩

omit [Scalar α] in
theorem refreshEach_ok {as : List DebugAction}
    (h : ∀ a ∈ as, ∀ o, ∃ o', refresh t a o = .ok () o' ∧
      Observing.Refreshed t.state.x a.watchers o o') (o : Observing ε α) :
    ∃ o', refreshEach t as o = .ok () o' ∧
      Observing.Refreshed t.state.x (watchersOf (leavesEach as)) o o' := by
  induction as generalizing o with
  | nil => exact ⟨o, rfl, .refl _ o⟩
  | cons a as ih =>
    obtain ⟨u, ha, hu⟩ := h a List.mem_cons_self o
    obtain ⟨o', has, ho'⟩ := ih (fun b hb => h b (List.mem_cons_of_mem a hb)) u
    refine ⟨o', sequence_eq_ok_iff.mpr ⟨(), u, ha, has⟩, ?_⟩
    rw [leavesEach, watchersOf_append]
    exact hu.trans ho'

omit [Scalar α] in
theorem refresh_ok (t : Moment ε α) (a : DebugAction) (o : Observing ε α) :
    ∃ o', refresh t a o = .ok () o' ∧ Observing.Refreshed t.state.x a.watchers o o' := by
  induction a using induct generalizing o with
  | leaf id kind cadence outlet => exact refreshLeaf_ok t id kind cadence outlet o
  | group members ih => exact refreshEach_ok ih o
  | every cadence a ih =>
    have hwatchers : (every cadence a).watchers = a.watchers := watchersOf_under cadence a.leaves
    rw [hwatchers]
    exact ih o

end Parts
end DebugAction
end Geodescent
