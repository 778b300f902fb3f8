import Geodescent.Proofs.Observation.Debug.Regrouped
import Geodescent.Proofs.Observation.Tally

/-! The text that debug output writes in a run. It is told once at the start, once after every
iteration and once at the stop, and writes the texts of the leaves that act there: `output_law`. -/
namespace Geodescent

/-- A decorator that writes nothing to an outlet. -/
def Decorator.Quiet {ε α : Type} (settings : Settings α) (outlet : Outlet) (d : Decorator ε α) :
    Prop :=
  match d with
  | .plain => True
  | .record _ => True
  | .debug a => ∀ ℓ ∈ a.leaves, DebugAction.outletOf ℓ.kind.outlet settings ≠ .ok outlet
  | .custom _ _ hook => ∀ phase t o o', hook phase t o = .ok () o' →
      Console.text o'.console outlet = Console.text o.console outlet

namespace Solver
variable {ε α : Type} [Scalar α] {p : Problem ε α} {o : Options ε α}
  {pre post : List (Decorator ε α)} {solver : Solver ε α} {s t : Session ε α} {a : DebugAction}
  {phase : Phase} {k : Nat} {v : Visit ε α} {outlet : Outlet}

def Visit.texts (p : Problem ε α) (v : Visit ε α) : List String :=
  (v.printings p).map fun q => q.text?.getD ""

/-- A call of the hook of debug output: it asks the leaves that act, from left to right. -/
structure Visit.Printed (p : Problem ε α) (a : DebugAction) (phase : Phase) (k : Nat)
    (v : Visit ε α) : Prop where
  sites : (v.printings p).map Printing.site =
    (a.leaves.filter fun ℓ => ℓ.Acts (Int.ofNat k) (phase = .stop)).map fun ℓ => (ℓ.id, ℓ.kind)
  asked : ∀ q ∈ v.printings p,
    q.outcome = DebugAction.content (told p phase k v.before) q.id q.printer.kind q.before ∧
    q.before.memory.get q.id = v.before.memory.get q.id ∧ ∃ text u, q.outcome = .ok text u

theorem printings_eq (hcall : v.call = .hook phase k (.debug a)) :
    v.printings p = (DebugAction.Narrated.run (told p phase k v.before) a
      ((Session.observing ε α).get v.before)).1 := by
  rw [Visit.printings, hcall]

theorem printed_of_visit (distinct : a.Distinct) (hcall : v.call = .hook phase k (.debug a))
    {b : Bool} (h : v.call.perform p o solver v.before = .ok b t) : v.Printed p a phase k := by
  rw [hcall] at h
  obtain ⟨w, htell, -⟩ := tell_of_perform h
  obtain ⟨gs, hrun⟩ := Decorator.tell_debug htell
  have hgs : v.printings p = gs := (printings_eq hcall).trans (congrArg Prod.fst hrun)
  have ran := DebugAction.run_ok hrun
  have asked := (DebugAction.leads_run (t := told p phase k v.before)
    (m := fun i => v.before.memory.get i) distinct).entries (fun _ _ => rfl) hrun
  refine ⟨?_, fun q hq => ?_⟩
  · rw [hgs]
    exact ran.sites
  · rw [hgs] at hq
    exact ⟨(asked q hq).outcome, (asked q hq).memory, ran.texts q hq⟩

section Quiet
variable {others : List (Decorator ε α)} {settings : Settings α}

theorem text_of_quiet {d : Decorator ε α} {t : Moment ε α} {o o' : Observing ε α}
    (hd : d.Quiet t.settings outlet) (h : d.tell phase t o = .ok () o') :
    Console.text o'.console outlet = Console.text o.console outlet := by
  cases d with
  | plain =>
    cases h
    rfl
  | debug a =>
    obtain ⟨gs, hrun⟩ := Decorator.tell_debug h
    have ran := DebugAction.run_ok hrun
    exact ran.text_of_none hd
  | record g =>
    by_cases hphase : phase = .start
    · subst hphase
      obtain ⟨u, emptied, refreshed⟩ := Decorator.tell_record_start h
      rw [refreshed.console, emptied.console]
    · obtain ⟨cs, ds, hrun⟩ := Decorator.tell_record hphase h
      rw [(RecordAction.run_ok hrun).console]
  | custom className fields hook => exact hd phase t o o' h

theorem tally_text (hquiet : ∀ e ∈ others, e.Quiet settings outlet)
    (houtlet : ∀ ℓ ∈ a.leaves, DebugAction.outletOf ℓ.kind.outlet settings = .ok outlet) :
    Tally p o solver others (.debug a) (fun s => s.settings = settings)
      (fun s => s.console.text outlet) fun text v => text ++ String.join (v.texts p) where
  books s t h hs := ⟨h.settings.trans hs, congrArg (Console.text · outlet) h.console⟩
  others c s b t h hothers hs := by
    cases c with
    | hook phase k d =>
      obtain ⟨w, htell, rfl⟩ := tell_of_perform h
      have hd := hquiet d (hothers phase k d rfl)
      rw [← hs] at hd
      exact ⟨hs, text_of_quiet (t := told p phase k s) hd htell⟩
    | prepare | judge _ | step _ =>
      obtain ⟨-, hconsole, hsettings⟩ := memory_of_perform (by intro _ _ _ hc; cases hc) h
      exact ⟨hsettings.trans hs, congrArg (Console.text · outlet) hconsole⟩
  told phase k s b t h hs := by
    obtain ⟨w, htell, rfl⟩ := tell_of_perform h
    obtain ⟨gs, hrun⟩ := Decorator.tell_debug htell
    have hgs : Visit.printings p ⟨.hook phase k (.debug a), s,
        .ok b ((Session.observing ε α).set w s)⟩ = gs :=
      (printings_eq rfl).trans (congrArg Prod.fst hrun)
    have hsettings : (told p phase k s).settings = settings := hs
    have htext := (DebugAction.run_ok hrun).text_of_all (by rw [hsettings]; exact houtlet)
    rw [Visit.texts, hgs]
    exact ⟨hs, htext⟩

end Quiet

section Alike
variable {chain chain' : List (Decorator ε α)}

theorem solve_congr (h : ∀ phase t, Decorator.tellEach phase t chain =
      (Decorator.tellEach phase t chain' : Observe ε α Unit)) (fuel : Nat) :
    solve fuel p o chain solver = solve fuel p o chain' solver := by
  have htell : tell p chain = tell p chain' := by
    funext phase k
    simp only [tell, h]
  have hpass (k : Int) : pass p o chain solver k = pass p o chain' solver k := by
    simp only [pass, htell]
  have hiterate : ∀ fuel done, iterate p o chain solver fuel done =
      iterate p o chain' solver fuel done := by
    intro fuel
    induction fuel with
    | zero => exact fun _ => rfl
    | succ fuel ih =>
      intro done
      simp only [iterate, hpass, ih]
  simp only [solve, begin, finish, htell, hiterate]

theorem tellEach_regrouped {b : DebugAction} (h : DebugAction.Regrouped a b) (phase : Phase)
    (t : Moment ε α) : Decorator.tellEach phase t (pre ++ .debug a :: post) =
      Decorator.tellEach phase t (pre ++ .debug b :: post) := by
  have hrun : a.run t = b.run t := DebugAction.run_regrouped h
  induction pre with
  | nil => simp only [List.nil_append, Decorator.tellEach, Decorator.tell, hrun]
  | cons d pre ih => simp only [List.cons_append, Decorator.tellEach, ih]

end Alike

theorem validate_keeps {s₁ : Session ε α} (h : validate p s = .ok () s₁) :
    s₁.settings = s.settings ∧ s₁.console = s.console := by
  obtain ⟨_, s', hget, h₁⟩ := sequence_eq_ok_iff.mp h
  cases hget
  obtain ⟨x, -, h₂⟩ := settled_bind_eq_ok_iff.mp h₁
  obtain ⟨_, s', hmove, h₃⟩ := sequence_eq_ok_iff.mp h₂
  cases hmove
  obtain ⟨-, rfl⟩ := settled_eq_ok_iff.mp h₃
  exact ⟨rfl, rfl⟩

theorem foldl_texts (ws : List (Visit ε α)) (text : String) :
    ws.foldl (fun text v => text ++ String.join (v.texts p)) text =
      text ++ String.join (ws.flatMap (Visit.texts p)) := by
  induction ws generalizing text with
  | nil => exact String.append_empty.symm
  | cons v ws ih =>
    rw [List.foldl_cons, ih, List.flatMap_cons, String.join_append, String.append_assoc]

/-- The text on an outlet after a run of `n` iterations with the calls `vs`: the calls `ws` among them
in which the debug output was told, one at the start, one after every iteration and one at the stop,
and the texts that it has written there. -/
structure Written (p : Problem ε α) (a : DebugAction) (outlet : Outlet) (n : Nat)
    (vs ws : List (Visit ε α)) (s t : Session ε α) : Prop where
  sublist : ws.Sublist vs
  calls : ws.map Visit.call = hooksAt (.debug a) ((.start, 0) :: beats n)
  printed : ∀ v ∈ ws, ∀ phase k, v.call = .hook phase k (.debug a) → v.Printed p a phase k
  text : t.console.text outlet =
    s.console.text outlet ++ String.join (ws.flatMap (Visit.texts p))

/-- The exact text of debug output that has an outlet for itself: the texts of the leaves that act,
moment by moment and from left to right. How the wrappers of the tree are placed does not matter, as
long as the same leaves act. -/
theorem output_law (distinct : a.Distinct)
    (hquiet : ∀ e ∈ pre ++ post, e.Quiet s.settings outlet)
    (houtlet : ∀ ℓ ∈ a.leaves, DebugAction.outletOf ℓ.kind.outlet s.settings = .ok outlet)
    {fuel : Nat} (h : solve fuel p o (pre ++ .debug a :: post) solver s = .ok () t) :
    (∃ n ws, t.state.iteration = .whole (Int.ofNat n) ∧
      Written p a outlet n (history fuel p o (pre ++ .debug a :: post) solver s) ws s t) ∧
    ∀ b, DebugAction.Regrouped a b →
      solve fuel p o (pre ++ .debug b :: post) solver s = .ok () t := by
  constructor
  · obtain ⟨s₁, n, ws, hvalid, hiteration, hsub, hcalls, -, hend⟩ :=
      (tally_text hquiet houtlet).solve h fun s₁ hs₁ => (validate_keeps hs₁).1
    obtain ⟨_, -, linked⟩ := linked_of_solve h
    refine ⟨n, ws, hiteration, hsub, hcalls, fun v hv phase k hcall => ?_, ?_⟩
    · have hmem := hsub.subset hv
      obtain ⟨b, u, hu⟩ := linked.returned v hmem
      rw [outcome_of_mem_history hmem] at hu
      exact printed_of_visit distinct hcall hu
    · rw [hend, foldl_texts, (validate_keeps hvalid).2]
  · intro b hb
    rw [← solve_congr (fun phase t => tellEach_regrouped hb phase t)]
    exact h

def bulletin : DebugAction :=
  .every .everySecond (.group [.leaf 0 .iteration .always none,
    .every .everyThird (.leaf 1 (.change " moved ") .always none),
    .leaf 2 .stop .onlyAtStop none])

def bulletinOfLeaves : DebugAction :=
  .group [.every .everySecond (.leaf 0 .iteration .always none),
    .every (.lcm .everySecond .everyThird) (.leaf 1 (.change " moved ") .always none),
    .every .everySecond (.leaf 2 .stop .onlyAtStop none)]

theorem output_law_counting :
    ∃ t n ws, solve 3 line twice ([.plain] ++ .debug bulletin :: []) counting origin = .ok () t ∧
      t.state.iteration = .whole (Int.ofNat n) ∧
      Written line bulletin .standard n
        (history 3 line twice ([.plain] ++ .debug bulletin :: []) counting origin) ws origin t ∧
      solve 3 line twice ([.plain] ++ .debug bulletinOfLeaves :: []) counting origin = .ok () t := by
  obtain ⟨_, t, ht, -⟩ : ∃ b t, solve 3 line twice ([.plain] ++ .debug bulletin :: []) counting
      origin = .ok b t ∧ True := by
    decide +kernel
  have distinct : bulletin.Distinct := by decide
  have quiet : ∀ e ∈ ([.plain] ++ [] : List (Decorator Unit Float)),
      e.Quiet origin.settings .standard := List.forall_mem_singleton.mpr trivial
  have outlets : ∀ ℓ ∈ bulletin.leaves,
      DebugAction.outletOf ℓ.kind.outlet origin.settings = .ok .standard := by
    intro ℓ hℓ
    have hnone : ℓ.kind.outlet = none := by
      have hall : ∀ ℓ ∈ bulletin.leaves, ℓ.kind.outlet = none := by decide
      exact hall ℓ hℓ
    rw [hnone]
    rfl
  have regrouped : DebugAction.Regrouped bulletin bulletinOfLeaves := by
    refine .trans (.spread _ _) ?_
    exact .member [.every .everySecond (.leaf 0 .iteration .always none)]
      [.every .everySecond (.leaf 2 .stop .onlyAtStop none)] (.nested _ _ _)
  obtain ⟨⟨n, ws, hiteration, written⟩, hregrouped⟩ := output_law distinct quiet outlets ht
  exact ⟨t, n, ws, ht, hiteration, written, hregrouped bulletinOfLeaves regrouped⟩

end Solver
end Geodescent
