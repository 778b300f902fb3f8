import Geodescent.Proofs.Run.Rejected
import Geodescent.Proofs.Run.Stop
import Geodescent.Proofs.Run.Unpaced
import Geodescent.Proofs.Twin

/-! What a run takes over from an earlier one on the same options. The books and the gradient are
written anew before anybody sees them. The length of the last step is not: the first step replaces
it, and a run without a step keeps the one that it found: `leftover_law`. -/
namespace Geodescent
variable {ε α : Type}

def State.place (f : Position α → Position α) (s : State α) : State α :=
  { s with position := f s.position }

abbrev Stepping.Under (f : Position α → Position α) (s s' : Stepping ε α) : Prop := s' = s.place f

abbrev Session.Under (g : State α → State α) (s s' : Session ε α) : Prop := s' = s.advance g

structure Stepping.Akin (s s' : Stepping ε α) : Prop where
  env : s'.env = s.env
  journal : s'.journal = s.journal
  x : s'.position.x = s.position.x

/-- Sessions that differ in nothing but the state, and there not in the point. -/
structure Session.Akin (s s' : Session ε α) : Prop where
  env : s'.env = s.env
  settings : s'.settings = s.settings
  nodes : s'.nodes = s.nodes
  memory : s'.memory = s.memory
  console : s'.console = s.console
  journal : s'.journal = s.journal
  x : s'.state.x = s.state.x

section Akin
variable {f : Position α → Position α} {g : State α → State α} {pace : Datum α → Datum α}

theorem Stepping.akin_refl (s : Stepping ε α) : s.Akin s := ⟨rfl, rfl, rfl⟩

theorem Session.akin_refl (s : Session ε α) : s.Akin s := ⟨rfl, rfl, rfl, rfl, rfl, rfl, rfl⟩

theorem Stepping.akin_place (hf : ∀ q, (f q).x = q.x) (s : Stepping ε α) : s.Akin (s.place f) :=
  ⟨rfl, rfl, hf _⟩

theorem Session.akin_advance (hg : ∀ q, (g q).x = q.x) (s : Session ε α) : s.Akin (s.advance g) :=
  ⟨rfl, rfl, rfl, rfl, rfl, rfl, hg _⟩

theorem Stepping.akin_of_under (hf : ∀ q, (f q).x = q.x) {s s' : Stepping ε α}
    (h : s.Under f s') : s.Akin s' := by
  subst h
  exact s.akin_place hf

theorem Session.akin_of_under (hg : ∀ q, (g q).x = q.x) {s s' : Session ε α} (h : s.Under g s') :
    s.Akin s' := by
  subst h
  exact s.akin_advance hg

theorem Stepping.akin_of_paced {s s' : Stepping ε α} (h : s.Under (Position.paced pace) s') :
    s.Akin s' := akin_of_under (f := Position.paced pace) (fun _ => rfl) h

theorem Session.akin_of_paced {s s' : Session ε α} (h : s.Under (State.paced pace) s') :
    s.Akin s' := akin_of_under (g := State.paced pace) (fun _ => rfl) h

end Akin

section Renewed
variable [Scalar α]

def State.renewed (pace : Datum α → Datum α) (s : State α) : State α :=
  (State.start s.x).place fun q => { q with lastStepsize := pace s.position.lastStepsize }

/-- The session with options that are new at the same point. -/
def Session.anew (s : Session ε α) : Session ε α := { s with state := .start s.state.x }

/-- The session with new options, of which only the length of the last step is left. -/
def Session.renewed (s : Session ε α) : Session ε α :=
  s.anew.advance (State.paced fun _ => s.state.position.lastStepsize)

end Renewed

namespace Solver
variable [Scalar α] {p : Problem ε α} {o : Options ε α} {chain : List (Decorator ε α)}
  {solver : Solver ε α} {s s' t : Session ε α} {pace : Datum α → Datum α}
  {f : Position α → Position α}

/-- A solver of the library with options of its kind: only those of a descent have a gradient. -/
def Fits (solver : Solver ε α) (s : Session ε α) : Prop :=
  solver = descent ∨ solver = sweep ∧ s.state.gradient = .none

def StopsAtOnce (p : Problem ε α) (o : Options ε α) (chain : List (Decorator ε α))
    (solver : Solver ε α) (s : Session ε α) : Prop :=
  ∃ t, (begin p o chain solver >>= fun _ => judge p o 0) s = .ok true t

instance : Decidable (StopsAtOnce p o chain solver s) :=
  decidable_of_iff (∃ stop t, (begin p o chain solver >>= fun _ => judge p o 0) s = .ok stop t ∧
    stop = true) ⟨fun ⟨_, t, ht, h⟩ => ⟨t, by rw [ht, h]⟩, fun ⟨t, ht⟩ => ⟨true, t, ht, rfl⟩⟩

section Steps

theorem under_prepare_descent {g : Position α → Position α} (hf : ∀ q, (f q).x = q.x)
    (hg : ∀ q y, { f q with gradient := y } = g { q with gradient := y }) :
    Twin (Stepping.Under f) (Stepping.Under g) Stepping.Akin (descent.prepare p o)
      (descent.prepare p o) := by
  have hakin : ∀ u u' : Stepping ε α, u.Under f u' → u.Akin u' :=
    fun _ _ => Stepping.akin_of_under hf
  refine .bind (.settled _ hakin) fun _ => .reading fun u u' h => ?_
  rw [(hakin u u' h).x]
  have horacle := Twin.beside (Stepping.surroundings ε α) (p.gradientAt u.position.x)
    (Stepping.akin_place hf) (fun _ => rfl) fun _ _ => rfl
  refine .bind horacle fun y => .modify ?_
  rintro w _ rfl
  exact congrArg (Stepping.mk w.env w.journal) (hg w.position y)

theorem under_prepare_sweep (hf : ∀ q, (f q).x = q.x) :
    Twin (Stepping.Under f) (Stepping.Under f) Stepping.Akin (sweep.prepare p o)
      (sweep.prepare p o) := by
  have hakin : ∀ u u' : Stepping ε α, u.Under f u' → u.Akin u' :=
    fun _ _ => Stepping.akin_of_under hf
  refine .bind (.settled _ hakin) fun order => .bind (.settled _ hakin) fun _ => ?_
  change Twin _ _ _ (if o.stepsize.needsGradient then _ else _)
    (if o.stepsize.needsGradient then _ else _)
  split
  · exact .throw _ hakin
  · exact .pure ()

theorem under_nextStep (h : o.stepsize.Unpaced) (settings : Settings α) (k : Int)
    (allowZero : Bool) :
    Twin (Stepping.Under (Position.paced pace)) Eq Stepping.Akin
      (nextStep settings p o k allowZero) (nextStep settings p o k allowZero) := by
  refine .reading fun u u' hu => ?_
  have hrule : o.stepsize.next settings p u'.position (.whole k) =
      o.stepsize.next settings p u.position (.whole k) := by
    rw [hu]
    exact Stepsize.next_paced h settings p pace u.position (.whole k)
  rw [hrule]
  have hasked := Twin.beside (g := Stepping.place (Position.paced pace)) (Stepping.workshop ε α)
    (o.stepsize.next settings p u.position (.whole k)) (Stepping.akin_place fun _ => rfl)
    (fun _ => rfl) fun _ _ => rfl
  refine .bind hasked fun answer => ?_
  refine .bind (.settled _ fun _ _ => Stepping.akin_of_paced) fun step => ?_
  -- here the length of the last step is lost
  refine .bind (S := Eq) (.modify ?_) fun _ => .pure step
  rintro w _ rfl
  rfl

theorem under_step (library : solver = descent ∨ solver = sweep) (h : o.stepsize.Unpaced)
    (settings : Settings α) (k : Int) :
    Twin (Stepping.Under (Position.paced pace)) Eq Stepping.Akin (solver.step settings p o k)
      (solver.step settings p o k) := by
  rcases library with rfl | rfl
  · exact .bind (under_nextStep h settings k true) fun step => .refl _ Stepping.akin_refl
  · exact .bind (under_nextStep h settings k false) fun step => .refl _ Stepping.akin_refl

omit [Scalar α] in
theorem under_stepping {β : Type} {g : Position α → Position α} {m m' : Stepwise ε α β}
    (h : Twin (Stepping.Under f) (Stepping.Under g) Stepping.Akin m m') :
    Twin (Session.Under (State.place f)) (Session.Under (State.place g)) Session.Akin
      ((Session.stepping ε α).run m) ((Session.stepping ε α).run m') := by
  refine .within h (fun s s' hs => ?_) (fun s s' u u' hs hu => ?_) fun s s' u u' hs hu => ?_
  · subst hs
    rfl
  · subst hs hu
    rfl
  · subst hs
    exact ⟨hu.env, rfl, rfl, rfl, rfl, hu.journal, hu.x⟩

end Steps

section Books

theorem under_validate {g : State α → State α} (hg : ∀ q, (g q).x = q.x)
    (hmove : ∀ q y, (g q).place (·.moveTo y) = g (q.place (·.moveTo y))) :
    Twin (Session.Under g) (Session.Under g) Session.Akin (validate (ε := ε) p) (validate p) := by
  have hakin : ∀ s s' : Session ε α, s.Under g s' → s.Akin s' :=
    fun _ _ => Session.akin_of_under hg
  refine .reading fun s s' h => ?_
  have hpoint : s'.state.position.x = s.state.position.x := (hakin s s' h).x
  rw [hpoint, (hakin s s' h).settings]
  refine .bind (.settled _ hakin) fun v => .bind (S := Session.Under g) (.modify ?_) fun _ =>
    .settled _ hakin
  rintro u _ rfl
  exact congrArg (fun state => { u with state := state }) (hmove u.state _)

/-- Decorators that do not look at the length of the last step before the first iteration. -/
def Unseen (phase : Phase) (pace : Datum α → Datum α) (chain : List (Decorator ε α)) : Prop :=
  ∀ d ∈ chain, ∀ t : Moment ε α, t.iteration = 0 → d.tell phase (t.paced pace) = d.tell phase t

theorem under_tell {phase : Phase} (h : Unseen phase pace chain) :
    Twin (Session.Under (State.paced pace)) (Session.Under (State.paced pace)) Session.Akin
      (tell p chain phase 0) (tell p chain phase 0) := by
  refine .reading fun s s' hs => ?_
  have htell : Decorator.tellEach phase (s'.moment p 0 (phase = .stop)) chain =
      Decorator.tellEach phase (s.moment p 0 (phase = .stop)) chain := by
    rw [hs]
    exact Decorator.tellEach_congr fun d hd => h d hd (s.moment p 0 (phase = .stop)) rfl
  rw [htell]
  exact .beside (Session.observing ε α) _ (Session.akin_advance fun _ => rfl) (fun _ => rfl)
    fun _ _ => rfl

theorem under_judge (h : o.criterion.Unpaced) (k : Int) :
    Twin (Session.Under (State.paced pace)) (Session.Under (State.paced pace)) Session.Akin
      (judge p o k) (judge p o k) := by
  refine .reading fun s s' hs => ?_
  have hask : o.criterion.ask p s'.state k = o.criterion.ask p s.state k := by
    rw [hs]
    exact Criterion.ask_paced h p pace s.state k
  rw [hask]
  exact .beside (Session.judging ε α) _ (Session.akin_advance fun _ => rfl) (fun _ => rfl)
    fun _ _ => rfl

theorem under_begin {g : State α → State α} (hg : ∀ q, (g q).x = q.x)
    (hmove : ∀ q y, (g q).place (·.moveTo y) = g (q.place (·.moveTo y)))
    (hopened : ∀ q, opened (g q) = (opened q).place f)
    (hprepare : Twin (Stepping.Under f) (Stepping.Under (Position.paced pace)) Stepping.Akin
      (solver.prepare p o) (solver.prepare p o)) (hstart : Unseen .start pace chain) :
    Twin (Session.Under g) (Session.Under (State.paced pace)) Session.Akin
      (begin p o chain solver) (begin p o chain solver) := by
  refine .bind (under_validate hg hmove) fun _ => ?_
  refine .bind (S := Session.Under (State.place f)) (.modify ?_) fun _ => ?_
  · rintro s _ rfl
    exact congrArg (fun state => { s with state := state }) (hopened s.state)
  refine .bind (S := Session.Under (State.paced pace)) (under_stepping hprepare) fun _ => ?_
  refine .bind (under_tell hstart) fun _ => .modify ?_
  rintro s _ rfl
  rfl

theorem parallel_begin (pace : Datum α → Datum α) (fits : Fits solver s)
    (hstart : Unseen .start pace chain) :
    Parallel (Session.Under (State.paced pace)) Session.Akin (begin p o chain solver s)
      (begin p o chain solver (s.advance (State.renewed pace))) := by
  rcases fits with rfl | ⟨rfl, hnone⟩
  · have hprepare := under_prepare_descent (p := p) (o := o)
      (f := fun q => { q with gradient := .none, lastStepsize := pace q.lastStepsize })
      (g := Position.paced pace) (fun _ => rfl) fun _ _ => rfl
    exact under_begin (g := State.renewed pace) (fun _ => rfl) (fun _ _ => rfl) (fun _ => rfl)
      hprepare hstart s _ rfl
  · -- without a gradient only the books are left, and they are opened for every run
    have hstate : State.renewed pace s.state = opened (s.state.paced pace) := by
      simp only [State.gradient] at hnone
      simp only [State.renewed, State.start, Position.start, State.place, opened, State.paced,
        Position.paced, State.x, hnone]
    have hrenewed : s.advance (State.renewed pace) = s.advance fun q => opened (q.paced pace) :=
      congrArg (fun state => { s with state := state }) hstate
    have hprepare := under_prepare_sweep (p := p) (o := o) (f := Position.paced pace) fun _ => rfl
    rw [hrenewed]
    exact under_begin (g := fun q => opened (q.paced pace)) (fun _ => rfl) (fun _ _ => rfl)
      (fun _ => rfl) hprepare hstart s _ rfl

theorem under_pass (library : solver = descent ∨ solver = sweep) (hrule : o.stepsize.Unpaced)
    (k : Int) : Twin (Session.Under (State.paced pace)) Eq Session.Akin
      (pass p o chain solver k) (pass p o chain solver k) := by
  refine .reading fun s s' h => ?_
  subst h
  have hstep : Twin (Stepping.Under (Position.paced pace)) (Stepping.Under id) Stepping.Akin
      (solver.step s.settings p o k) (solver.step s.settings p o k) :=
    (under_step library hrule s.settings k).mono (fun _ _ h => h) (fun _ _ h => h.symm)
      fun _ _ h => h
  have hrun : Twin (Session.Under (State.paced pace)) Eq Session.Akin
      ((Session.stepping ε α).run (solver.step s.settings p o k))
      ((Session.stepping ε α).run (solver.step s.settings p o k)) :=
    (under_stepping hstep).mono (fun _ _ h => h) (fun _ _ h => h.symm) fun _ _ h => h
  exact .bind hrun fun _ => .refl _ Session.akin_refl

theorem under_iterate (library : solver = descent ∨ solver = sweep) (hrule : o.stepsize.Unpaced)
    (fuel done : Nat) : Twin (Session.Under (State.paced pace)) Eq Session.Akin
      (iterate p o chain solver fuel done) (iterate p o chain solver fuel done) := by
  cases fuel with
  | zero => exact .throw _ fun _ _ => Session.akin_of_paced
  | succ fuel => exact .bind (under_pass library hrule _) fun _ => .refl _ Session.akin_refl

theorem under_finish (hstop : Unseen .stop pace chain) :
    Twin (Session.Under (State.paced pace)) (Session.Under (State.paced pace)) Session.Akin
      (finish p o chain solver 0) (finish p o chain solver 0) := by
  refine .bind (S := Session.Under (State.paced pace)) (.modify ?_) fun _ => ?_
  · rintro s _ rfl
    rfl
  refine .reading fun s s' h => ?_
  subst h
  refine .bind (S := Session.Under (State.paced pace)) (.modify ?_) fun _ => under_tell hstop
  rintro s _ rfl
  rfl

end Books

section Runs

theorem solve_of_begin {u : Session ε α} {stop : Bool} (fuel : Nat)
    (hbegin : begin p o chain solver s = .ok () t) (hjudge : judge p o 0 t = .ok stop u) :
    solve fuel p o chain solver s = (do
      let iterations ← if stop then pure 0 else iterate p o chain solver fuel 0
      finish p o chain solver iterations : Run ε α Unit) u := by
  unfold solve
  rw [bind_of_ok hbegin, bind_of_ok hjudge]

theorem parallel_renewed (fits : Fits solver s) (fuel : Nat) :
    Parallel Eq Session.Akin (solve fuel p o chain solver s)
      (solve fuel p o chain solver s.renewed) := by
  have hstart : Unseen .start id chain := fun d _ t _ => rfl
  refine (parallel_begin (p := p) (o := o) id fits hstart).bind fun _ t t' _ ht => ?_
  have hsame : t = t' := ht.symm
  exact Twin.refl _ Session.akin_refl t t' hsame

theorem parallel_anew (fits : Fits solver s) (hrule : o.stepsize.Unpaced)
    (hcriterion : o.criterion.Unpaced) (library : ∀ d ∈ chain, d.Library)
    (hlater : ¬ StopsAtOnce p o chain solver s) (fuel : Nat) :
    Parallel Eq Session.Akin (solve fuel p o chain solver s)
      (solve fuel p o chain solver s.anew) := by
  have hstart : Unseen .start (fun _ => .real 0) chain :=
    fun d hd t hzero => d.tell_start_paced (library d hd) hzero
  refine (parallel_begin (p := p) (o := o) _ fits hstart).bind fun _ t t' hbegun ht => ?_
  refine (under_judge hcriterion 0 t t' ht).bind fun stop u u' hjudge hu => ?_
  cases stop with
  | true => exact absurd ⟨u, sequence_eq_ok_iff.mpr ⟨(), t, hbegun, hjudge⟩⟩ hlater
  | false =>
    have hend : Parallel Eq Session.Akin (iterate p o chain solver fuel 0 u)
        (iterate p o chain solver fuel 0 u') :=
      under_iterate (fits.imp id And.left) hrule fuel 0 u u' hu
    exact hend.bind fun n v v' _ hv => Twin.refl _ Session.akin_refl v v' hv

theorem parallel_idle (fits : Fits solver s) (hcriterion : o.criterion.Unpaced)
    (unpaced : ∀ d ∈ chain, d.Unpaced) (stops : StopsAtOnce p o chain solver s) (fuel : Nat) :
    Parallel (Session.Under (State.paced fun _ => .real 0)) Session.Akin
      (solve fuel p o chain solver s) (solve fuel p o chain solver s.anew) := by
  obtain ⟨w, h⟩ := stops
  obtain ⟨_, v, hv, hw⟩ := sequence_eq_ok_iff.mp h
  have hstart : Unseen .start (fun _ => .real 0) chain :=
    fun d hd t hzero => d.tell_start_paced (unpaced d hd).library hzero
  refine (parallel_begin (p := p) (o := o) _ fits hstart).bind fun _ t t' hbegun ht => ?_
  refine (under_judge hcriterion 0 t t' ht).bind fun stop u u' hjudge hu => ?_
  cases hv.symm.trans hbegun
  cases hw.symm.trans hjudge
  have hstop : Unseen .stop (fun _ => .real 0) chain :=
    fun d hd t hzero => d.tell_paced (unpaced d hd) hzero .stop
  exact under_finish hstop w u' hu

theorem lastStepsize_prepare (library : solver = descent ∨ solver = sweep) {u v : Stepping ε α}
    (h : solver.prepare p o u = .ok () v) :
    v.position.lastStepsize = u.position.lastStepsize := by
  rcases library with rfl | rfl
  · obtain ⟨_, -, hrefresh⟩ := settled_bind_eq_ok_iff.mp h
    obtain ⟨g, env, -, rfl⟩ := refreshGradient_eq_ok_iff.mp hrefresh
    rfl
  · obtain ⟨_, -, h₁⟩ := settled_bind_eq_ok_iff.mp h
    obtain ⟨_, -, h₂⟩ := settled_bind_eq_ok_iff.mp h₁
    split at h₂
    · cases h₂
    · cases h₂
      rfl

theorem state_tell {phase : Phase} {k : Int} (h : tell p chain phase k s = .ok () t) :
    t.state = s.state := by
  obtain ⟨_, u, hget, hrun⟩ := sequence_eq_ok_iff.mp h
  cases hget
  obtain ⟨w, -, rfl⟩ := (Part.run_eq_ok_iff _).mp hrun
  rfl

theorem lastStepsize_begin (library : solver = descent ∨ solver = sweep)
    (h : begin p o chain solver s = .ok () t) :
    t.state.position.lastStepsize = s.state.position.lastStepsize := by
  obtain ⟨_, s₁, hvalid, h₁⟩ := sequence_eq_ok_iff.mp h
  obtain ⟨_, s₂, hopened, h₂⟩ := sequence_eq_ok_iff.mp h₁
  cases hopened
  obtain ⟨_, s₃, hrun, h₃⟩ := sequence_eq_ok_iff.mp h₂
  obtain ⟨u, hprepare, rfl⟩ := (Part.run_eq_ok_iff _).mp hrun
  obtain ⟨_, s₄, htell, h₄⟩ := sequence_eq_ok_iff.mp h₃
  cases h₄
  have hprepared := lastStepsize_prepare library hprepare
  have hpoint := (untouched_validate hvalid).lastStepsize
  have hstart := congrArg (fun q => q.position.lastStepsize) (state_tell htell)
  exact hstart.trans (hprepared.trans hpoint)

theorem lastStepsize_idle (library : solver = descent ∨ solver = sweep)
    (stops : StopsAtOnce p o chain solver s) {fuel : Nat}
    (h : solve fuel p o chain solver s = .ok () t) :
    t.state.position.lastStepsize = s.state.position.lastStepsize := by
  obtain ⟨v, hstops⟩ := stops
  obtain ⟨_, u, hbegin, hjudge⟩ := sequence_eq_ok_iff.mp hstops
  rw [solve_of_begin fuel hbegin hjudge] at h
  have hperform : (Call.judge 0).perform p o solver u = .ok true v := hjudge
  have hfinish : (Narrated.finish p o chain solver 0).outcome v = .ok () t := by
    rw [outcome_finish]
    exact h
  obtain ⟨hposition, -⟩ := position_finish (Prod.ext rfl hfinish)
  rw [hposition, perform_judge hperform]
  exact lastStepsize_begin library hbegin

/-- The law of leftovers. Of what an earlier run left in the options a run sees nothing but the
length of the last step, whatever its rules, its criterion and its decorators look at. If neither
rule nor criterion looks at that, a run with a step goes like one with new options. A run without a
step keeps the length that it found and, if no decorator records it, is otherwise like one with new
options. -/
theorem leftover_law (fits : Fits solver s) (fuel : Nat) :
    Parallel Eq Session.Akin (solve fuel p o chain solver s)
      (solve fuel p o chain solver s.renewed) ∧
    (o.stepsize.Unpaced → o.criterion.Unpaced → (∀ d ∈ chain, d.Library) →
      ¬ StopsAtOnce p o chain solver s →
      Parallel Eq Session.Akin (solve fuel p o chain solver s)
        (solve fuel p o chain solver s.anew)) ∧
    (StopsAtOnce p o chain solver s →
      (∀ t, solve fuel p o chain solver s = .ok () t →
        t.state.position.lastStepsize = s.state.position.lastStepsize) ∧
      (o.criterion.Unpaced → (∀ d ∈ chain, d.Unpaced) →
        Parallel (Session.Under (State.paced fun _ => .real 0)) Session.Akin
          (solve fuel p o chain solver s) (solve fuel p o chain solver s.anew))) := by
  refine ⟨parallel_renewed fits fuel, fun hrule hcriterion library hlater => ?_, fun stops => ?_⟩
  · exact parallel_anew fits hrule hcriterion library hlater fuel
  · refine ⟨fun t ht => lastStepsize_idle (fits.imp id And.left) stops ht, ?_⟩
    exact fun hcriterion unpaced => parallel_idle fits hcriterion unpaced stops fuel

end Runs

def halfway (n : Nat) : Options Unit Float :=
  ⟨.descent .standard, .atom 0 (.cap n), .constant 0.5⟩

def stride : RecordAction := .group 0 [.leaf 1 (.quantity .stepsize) .onlyAtStop]

def trodden : Session Unit Float :=
  hillside.advance fun q =>
    ⟨⟨q.x, .array ⟨[2], .real [8, -16]⟩, .real 0.7⟩, .whole 5, .real 3, .text "done"⟩

theorem leftover_law_trodden :
    (∃ t, solve 1 valley (halfway 1) [.record stride] descent trodden = .ok () t ∧
      solve 1 valley (halfway 1) [.record stride] descent trodden.anew = .ok () t) ∧
    ∃ t, solve 1 valley (halfway 0) [.record stride] descent trodden = .ok () t ∧
      t.state.position.lastStepsize = .real 0.7 := by
  have fits : Fits descent trodden := .inl rfl
  constructor
  · obtain ⟨_, t, ht, -⟩ :
        ∃ b t, solve 1 valley (halfway 1) [.record stride] descent trodden = .ok b t ∧ True := by
      decide +kernel
    have hcriterion : (halfway 1).criterion.Unpaced := List.forall_mem_singleton.mpr trivial
    have hlater : ¬ StopsAtOnce valley (halfway 1) [.record stride] descent trodden := by
      decide +kernel
    have library : ∀ d ∈ ([.record stride] : List (Decorator Unit Float)), d.Library :=
      List.forall_mem_singleton.mpr trivial
    obtain ⟨-, hagain, -⟩ := leftover_law (p := valley) (o := halfway 1) fits 1
    have hends := hagain trivial hcriterion library hlater
    rw [ht] at hends
    obtain ⟨_, ht', rfl⟩ := hends.of_ok
    exact ⟨t, ht, ht'⟩
  · obtain ⟨_, t, ht, -⟩ :
        ∃ b t, solve 1 valley (halfway 0) [.record stride] descent trodden = .ok b t ∧ True := by
      decide +kernel
    have stops : StopsAtOnce valley (halfway 0) [.record stride] descent trodden := by
      decide +kernel
    obtain ⟨-, -, hidle⟩ := leftover_law (p := valley) (o := halfway 0) fits 1
    exact ⟨t, ht, (hidle stops).1 t ht⟩

/-- Where no step is made the earlier run shows, in the options and in the record. -/
theorem not_anew_when_idle :
    (∃ b t, solve 1 valley (halfway 0) [.record stride] descent trodden = .ok b t ∧
      t.state.position.lastStepsize = .real 0.7 ∧
      ∃ d ∈ (t.memory.get 1).recorded.toList, d = .real 0.7) ∧
    ∃ b t, solve 1 valley (halfway 0) [.record stride] descent trodden.anew = .ok b t ∧
      t.state.position.lastStepsize = .real 0 ∧
      ∀ d ∈ (t.memory.get 1).recorded.toList, d = .real 0 := by
  decide +kernel

end Solver
end Geodescent
