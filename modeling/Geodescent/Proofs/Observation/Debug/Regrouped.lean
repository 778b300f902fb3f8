import Geodescent.Debug.Run
import Geodescent.Proofs.Observation.Debug.Tree

/-! Two ways to write the same debug output. A wrapper around a group is the group of its wrapped
members, and two wrappers act as one with the least common multiple of their cadences. Trees that
differ in such places only run alike: `run_regrouped`. -/
namespace Geodescent.DebugAction
variable {ε α : Type} {a b : DebugAction} {t : Moment ε α}

/-- Trees that differ in how their wrappers are placed. -/
inductive Regrouped : DebugAction → DebugAction → Prop
  | refl (a : DebugAction) : Regrouped a a
  | symm {a b : DebugAction} : Regrouped a b → Regrouped b a
  | trans {a b c : DebugAction} : Regrouped a b → Regrouped b c → Regrouped a c
  | member {a b : DebugAction} (before after : List DebugAction) : Regrouped a b →
      Regrouped (.group (before ++ a :: after)) (.group (before ++ b :: after))
  | every {a b : DebugAction} (c : Cadence) : Regrouped a b →
      Regrouped (.every c a) (.every c b)
  | spread (c : Cadence) (members : List DebugAction) :
      Regrouped (.every c (.group members)) (.group (members.map (.every c)))
  | nested (c d : Cadence) (a : DebugAction) :
      Regrouped (.every c (.every d a)) (.every (c.lcm d) a)

theorem refresh_regrouped (h : Regrouped a b) : refresh t a = refresh t b := by
  induction h with
  | refl a => rfl
  | symm _ ih => exact ih.symm
  | trans _ _ ih ih' => exact ih.trans ih'
  | member before after _ ih =>
    rw [refresh, refresh]
    induction before with
    | nil =>
      rw [List.nil_append, List.nil_append, refreshEach, refreshEach, ih]
    | cons a before ih' => rw [List.cons_append, List.cons_append, refreshEach, refreshEach, ih']
  | every c _ ih => rw [refresh, refresh, ih]
  | spread c members =>
    rw [refresh, refresh, refresh]
    induction members with
    | nil => rfl
    | cons a members ih => rw [List.map_cons, refreshEach, refreshEach, refresh, ih]
  | nested c d a => rw [refresh, refresh, refresh]

variable [Scalar α]

theorem run_every {c : Cadence} (h : t.stopped = false → c.Hits t.iteration) :
    run t (.every c a) = run t a := by
  rw [run, if_pos (Cadence.passes_iff.mpr h)]

theorem run_every_of_held {c : Cadence} (h : ¬ (t.stopped = false → c.Hits t.iteration)) :
    run t (.every c a) = refresh t a := by
  rw [run, if_neg fun hpasses => h (Cadence.passes_iff.mp hpasses)]

theorem run_spread (c : Cadence) (members : List DebugAction) :
    run t (.every c (.group members)) = run t (.group (members.map (.every c))) := by
  by_cases h : t.stopped = false → c.Hits t.iteration
  · rw [run_every h, run, run]
    induction members with
    | nil => rfl
    | cons a members ih => rw [List.map_cons, runEach, runEach, run_every h, ih]
  · rw [run_every_of_held h, refresh, run]
    induction members with
    | nil => rfl
    | cons a members ih => rw [List.map_cons, refreshEach, runEach, run_every_of_held h, ih]

theorem run_nested (c d : Cadence) (a : DebugAction) :
    run t (.every c (.every d a)) = run t (.every (c.lcm d) a) := by
  have hlcm : (t.stopped = false → (c.lcm d).Hits t.iteration) ↔
      (t.stopped = false → c.Hits t.iteration) ∧ (t.stopped = false → d.Hits t.iteration) := by
    rw [Cadence.hits_lcm]
    exact ⟨fun h => ⟨fun hs => (h hs).1, fun hs => (h hs).2⟩, fun h hs => ⟨h.1 hs, h.2 hs⟩⟩
  by_cases hc : t.stopped = false → c.Hits t.iteration
  · rw [run_every hc]
    by_cases hd : t.stopped = false → d.Hits t.iteration
    · rw [run_every hd, run_every (hlcm.mpr ⟨hc, hd⟩)]
    · rw [run_every_of_held hd, run_every_of_held fun h => hd (hlcm.mp h).2]
  · rw [run_every_of_held hc, run_every_of_held fun h => hc (hlcm.mp h).1, refresh]

theorem run_regrouped (h : Regrouped a b) : run t a = run t b := by
  induction h with
  | refl a => rfl
  | symm _ ih => exact ih.symm
  | trans _ _ ih ih' => exact ih.trans ih'
  | member before after _ ih =>
    rw [run, run]
    induction before with
    | nil => rw [List.nil_append, List.nil_append, runEach, runEach, ih]
    | cons a before ih' => rw [List.cons_append, List.cons_append, runEach, runEach, ih']
  | every c h ih => rw [run, run, ih, refresh_regrouped h]
  | spread c members => exact run_spread c members
  | nested c d a => exact run_nested c d a

end Geodescent.DebugAction
