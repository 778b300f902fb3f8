import Geodescent.Proofs.Criterion.Tree
import Geodescent.Proofs.Observation.Chain
import Geodescent.Session

/-! Who looks at the length of the last step. Of the rules and the criteria only those given from
outside can, and of the actions of the library only those that print or record it; before the first
iteration nothing is printed. Everything else comes to the same whatever length is noted. -/
namespace Geodescent
variable {ε α : Type}

def Position.paced (pace : Datum α → Datum α) (s : Position α) : Position α :=
  { s with lastStepsize := pace s.lastStepsize }

def State.paced (pace : Datum α → Datum α) (s : State α) : State α :=
  { s with position := s.position.paced pace }

def Moment.paced (pace : Datum α → Datum α) (t : Moment ε α) : Moment ε α :=
  { t with state := t.state.paced pace }

section Rules

/-- A rule that does not look at the length of the last step. -/
def Stepsize.Unpaced : Stepsize ε α → Prop
  | .custom _ _ rule => ∀ s d k, rule { s with lastStepsize := d } k = rule s k
  | .constant _ | .decreasing _ | .armijo _ | .value _ => True

theorem Stepsize.next_paced [Scalar α] {rule : Stepsize ε α} (h : rule.Unpaced)
    (settings : Settings α) (p : Problem ε α) (pace : Datum α → Datum α) (s : Position α)
    (k : Datum α) : rule.next settings p (s.paced pace) k = rule.next settings p s k := by
  cases rule with
  | custom kind shown rule => exact congrArg asking (h s _ k)
  | constant _ | decreasing _ | armijo _ | value _ => rfl

def Check.Unpaced : Check ε α → Prop
  | .custom _ _ test => ∀ (s : State α) d k,
      test { s with position := { s.position with lastStepsize := d } } k = test s k
  | .cap _ | .gradientNorm _ | .change _ | .elapsed .. | .flag .. | .value _ => True

theorem Check.test_paced [Scalar α] {check : Check ε α} (h : check.Unpaced) (id : Nat)
    (p : Problem ε α) (pace : Datum α → Datum α) (s : State α) (k : Int) :
    check.test id p (s.paced pace) k = check.test id p s k := by
  cases check with
  | custom kind shown test =>
    have htest : test (s.paced pace) k = test s k := h s _ k
    simp only [Check.test, htest]
  | cap _ | gradientNorm _ | change _ | elapsed _ _ | flag _ _ | value _ => rfl

namespace Criterion

def Unpaced (c : Criterion ε α) : Prop := ∀ a ∈ c.atoms, a.2.Unpaced

theorem Unpaced.child {c e : Criterion ε α} (h : c.Unpaced) (he : e ∈ c.children) : e.Unpaced :=
  fun a ha => h a (atoms_subset (mem_nodes_child he) ha)

theorem ask_paced [Scalar α] {c : Criterion ε α} (h : c.Unpaced) (p : Problem ε α)
    (pace : Datum α → Datum α) (s : State α) (k : Int) :
    c.ask p (s.paced pace) k = c.ask p s k := by
  induction c using induct with
  | node c ih =>
    have hmembers : ∀ cs, cs ⊆ c.children → askEach p (s.paced pace) k cs = askEach p s k cs := by
      intro cs hcs
      induction cs with
      | nil => rfl
      | cons d ds ihds =>
        have hd : d ∈ c.children := hcs List.mem_cons_self
        rw [askEach, askEach, ih d hd (h.child hd),
          ihds fun e he => hcs (List.mem_cons_of_mem d he)]
    cases c with
    | atom id check =>
      have hcheck : check.Unpaced := h (id, check) (mem_atoms.mpr (mem_nodes_self _))
      rw [ask, ask, check.test_paced hcheck]
    | all id members => rw [ask, ask, hmembers members (List.Subset.refl _)]
    | any id members => rw [ask, ask, hmembers members (List.Subset.refl _)]

end Criterion
end Rules

section Observers
variable [Scalar α] {t : Moment ε α} {pace : Datum α → Datum α}

namespace DebugAction

theorem content_paced (hzero : t.iteration = 0) (id : Nat) (kind : DebugKind) :
    content (t.paced pace) id kind = content t id kind := by
  cases kind with
  | stepsize =>
    have hearly : ¬ 0 < t.iteration := by omega
    have hearly' : ¬ 0 < (t.paced pace).iteration := hearly
    rw [content, content, if_neg hearly, if_neg hearly']
  | iteration | cost _ | change _ | iterate | gradientNorm | stop | divider _ | silent => rfl

omit [Scalar α] in
theorem refresh_paced (a : DebugAction) : refresh (t.paced pace) a = refresh t a := by
  induction a using induct with
  | leaf id kind cadence outlet => rfl
  | group members ih =>
    have hmembers : refreshEach (t.paced pace) members = refreshEach t members := by
      induction members with
      | nil => rfl
      | cons a as ihas =>
        rw [refreshEach, refreshEach, ih a List.mem_cons_self,
          ihas fun b hb => ih b (List.mem_cons_of_mem a hb)]
    exact hmembers
  | every cadence a ih => exact ih

theorem run_paced (hzero : t.iteration = 0) (a : DebugAction) : run (t.paced pace) a = run t a := by
  induction a using induct with
  | leaf id kind cadence outlet =>
    rw [run, run, runLeaf, runLeaf, content_paced hzero]
    rfl
  | group members ih =>
    have hmembers : runEach (t.paced pace) members = runEach t members := by
      induction members with
      | nil => rfl
      | cons a as ihas =>
        rw [runEach, runEach, ih a List.mem_cons_self,
          ihas fun b hb => ih b (List.mem_cons_of_mem a hb)]
    exact hmembers
  | every cadence a ih =>
    rw [run, run, ih, refresh_paced]
    rfl

end DebugAction

namespace RecordAction

def Unpaced (a : RecordAction) : Prop := ∀ ℓ ∈ a.leaves, ℓ.kind ≠ .quantity .stepsize

theorem Unpaced.member {id : Nat} {members : List RecordAction} {a : RecordAction}
    (h : (group id members).Unpaced) (ha : a ∈ members) : a.Unpaced :=
  fun ℓ hℓ => h ℓ (mem_leavesEach.mpr ⟨a, ha, hℓ⟩)

theorem Unpaced.wrapped {cadence : Cadence} {a : RecordAction} (h : (every cadence a).Unpaced) :
    a.Unpaced :=
  fun ℓ hℓ => h (ℓ.under cadence) (List.mem_map_of_mem hℓ)

omit [Scalar α] in
theorem refresh_paced (a : RecordAction) : refresh (t.paced pace) a = refresh t a := by
  induction a using induct with
  | leaf id kind cadence => rfl
  | group id members ih =>
    have hmembers : refreshEach (t.paced pace) members = refreshEach t members := by
      induction members with
      | nil => rfl
      | cons a as ihas =>
        rw [refreshEach, refreshEach, ih a List.mem_cons_self,
          ihas fun b hb => ih b (List.mem_cons_of_mem a hb)]
    exact hmembers
  | every cadence a ih => exact ih

theorem capture_paced {kind : RecordKind} (h : kind ≠ .quantity .stepsize) (id : Nat) :
    capture (t.paced pace) id kind = capture t id kind := by
  rcases kind with token | _
  · cases token with
    | stepsize => exact absurd rfl h
    | iteration | cost | change | iterate | gradientNorm | stop => rfl
  · rfl

theorem run_paced {a : RecordAction} (h : a.Unpaced) : run (t.paced pace) a = run t a := by
  induction a using induct with
  | leaf id kind cadence =>
    have hkind : kind ≠ .quantity .stepsize := h ⟨id, kind, cadence, []⟩ (List.mem_singleton_self _)
    rw [run, run, runLeaf, runLeaf, capture_paced hkind]
    rfl
  | group id members ih =>
    have hmembers : ∀ as, as ⊆ members → runEach (t.paced pace) as = runEach t as := by
      intro as has
      induction as with
      | nil => rfl
      | cons a as ihas =>
        have ha : a ∈ members := has List.mem_cons_self
        rw [runEach, runEach, ih a ha (h.member ha),
          ihas fun b hb => has (List.mem_cons_of_mem a hb)]
    rw [run, run, hmembers members (List.Subset.refl _)]
  | every cadence a ih =>
    rw [run, run, ih h.wrapped, refresh_paced]
    rfl

end RecordAction

namespace Decorator

def Unpaced : Decorator ε α → Prop
  | .plain | .debug _ => True
  | .record g => g.Unpaced
  | .custom .. => False

omit [Scalar α] in
theorem Unpaced.library {d : Decorator ε α} (h : d.Unpaced) : d.Library := by
  cases d with
  | plain | debug _ | record _ => trivial
  | custom _ _ _ => exact h

theorem tell_start_paced {d : Decorator ε α} (library : d.Library) (hzero : t.iteration = 0) :
    d.tell .start (t.paced pace) = d.tell .start t := by
  cases d with
  | plain => rfl
  | debug a => exact a.run_paced hzero
  | record g =>
    have hrefresh : g.refresh (t.paced pace) = g.refresh t := g.refresh_paced
    rw [tell, tell, hrefresh]
  | custom _ _ _ => exact absurd library id

theorem tell_paced {d : Decorator ε α} (h : d.Unpaced) (hzero : t.iteration = 0) (phase : Phase) :
    d.tell phase (t.paced pace) = d.tell phase t := by
  cases d with
  | plain => rfl
  | debug a => exact a.run_paced hzero
  | record g =>
    have hrun : g.run (t.paced pace) = g.run t := RecordAction.run_paced h
    cases phase with
    | start => exact tell_start_paced trivial hzero
    | iteration | stop => exact congrArg (fun m => m >>= fun _ => pure ()) hrun
  | custom _ _ _ => exact absurd h id

theorem tellEach_congr {t t' : Moment ε α} {phase : Phase} {chain : List (Decorator ε α)}
    (h : ∀ d ∈ chain, d.tell phase t' = d.tell phase t) :
    tellEach phase t' chain = tellEach phase t chain := by
  induction chain with
  | nil => rfl
  | cons d ds ih =>
    rw [tellEach, tellEach, h d List.mem_cons_self,
      ih fun e he => h e (List.mem_cons_of_mem d he)]

end Decorator
end Observers
end Geodescent
