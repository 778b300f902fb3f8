import Geodescent.Proofs.Transcript
import Geodescent.Solver.Basic

/-! The calls that a run makes of its solver, its observers and its criterion. `Narrated.solve` is
the run with a list of these calls, `outcome_solve` says that it is the run, and `history` is the
list. -/
namespace Geodescent.Solver

inductive Call (ε α : Type) where
  | prepare
  | hook (phase : Phase) (iteration : Nat) (d : Decorator ε α)
  | judge (iteration : Nat)
  | step (iteration : Nat)

/-- A call with the session it was made in and what became of it. -/
structure Visit (ε α : Type) where
  call : Call ε α
  before : Session ε α
  outcome : EStateM.Result (Fault α) (Session ε α) Bool

variable {ε α : Type} [Scalar α]

/-- What a call does. Only the criterion has an answer, whether to stop. -/
def Call.perform (p : Problem ε α) (o : Options ε α) (solver : Solver ε α) :
    Call ε α → Run ε α Bool
  | .prepare => do
    (Session.stepping ε α).run (solver.prepare p o)
    pure false
  | .hook phase k d => do
    let s ← get
    (Session.observing ε α).run (d.tell phase (s.moment p (Int.ofNat k) (phase = .stop)))
    pure false
  | .judge k => Solver.judge p o (Int.ofNat k)
  | .step k => do
    let s ← get
    (Session.stepping ε α).run (solver.step s.settings p o (Int.ofNat k))
    pure false

instance (c : Call ε α) (k : Nat) : Decidable (c = .step k) :=
  match c with
  | .step j => decidable_of_iff (j = k) ⟨congrArg _, fun h => by cases h; rfl⟩
  | .prepare | .hook .. | .judge _ => .isFalse nofun

section Other
variable (j : Nat) (phase : Phase) (k : Nat) (d : Decorator ε α)

omit [Scalar α] in
theorem Call.prepare_ne_hook : Call.prepare ≠ .hook phase k d := by
  intro h
  cases h

omit [Scalar α] in
theorem Call.judge_ne_hook : Call.judge j ≠ .hook phase k d := by
  intro h
  cases h

omit [Scalar α] in
theorem Call.step_ne_hook : Call.step j ≠ .hook phase k d := by
  intro h
  cases h

end Other

def hooks (chain : List (Decorator ε α)) (phase : Phase) (k : Nat) : List (Call ε α) :=
  chain.map (.hook phase k)

omit [Scalar α] in
theorem mem_hooks {chain : List (Decorator ε α)} {phase : Phase} {k : Nat} {c : Call ε α}
    (h : c ∈ hooks chain phase k) : ∃ d, c = .hook phase k d := by
  obtain ⟨d, _, rfl⟩ := List.mem_map.mp h
  exact ⟨d, rfl⟩

namespace Narrated

abbrev Tale (ε α β : Type) := Scribe (Visit ε α) (Fault α) (Session ε α) β

section
variable (p : Problem ε α) (o : Options ε α) (chain : List (Decorator ε α)) (solver : Solver ε α)

def visit (c : Call ε α) : Tale ε α Bool :=
  Scribe.entering (fun s r => ⟨c, s, r⟩) (c.perform p o solver)

def visitEach : List (Call ε α) → Tale ε α Unit
  | [] => pure ()
  | c :: cs => do
    let _ ← visit p o solver c
    visitEach cs

def measure (x : Point α) (k : Nat) : Run ε α α := do
  modify (Session.advance fun state => { state with iteration := .whole (Int.ofNat k) })
  let after ← get
  let change ← settled (p.manifold.dist x after.state.x)
  modify (Session.advance fun state => { state with lastChange := .real change })
  pure change

def pass (k : Nat) : Tale ε α Unit := do
  let before ← Scribe.tacit get
  let _ ← visit p o solver (.step k)
  let change ← Scribe.tacit (measure p before.state.x k)
  visitEach p o solver (hooks chain .iteration k)
  Scribe.tacit (modify (Session.note (passEntry (Int.ofNat k) change)))

def onward : Nat → Nat → Bool → Tale ε α Nat
  | _, done, true => pure done
  | 0, _, false => Scribe.tacit (throw .unfinished)
  | fuel + 1, done, false => do
    pass p o chain solver (done + 1)
    let stop ← visit p o solver (.judge (done + 1))
    onward fuel (done + 1) stop

def close (n : Nat) : Run ε α Unit := do
  modify fun s => s.advance fun state =>
    { state with stopReason := .text (s.nodes.get o.criterion.id).reason }
  let s ← get
  modify (Session.note (closingEntry solver (Int.ofNat n) s.state.stopReason.plain))

def finish (n : Nat) : Tale ε α Unit := do
  Scribe.tacit (close o solver n)
  visitEach p o solver (hooks chain .stop n)

def proceed (fuel : Nat) : Tale ε α Unit := do
  let stop ← visit p o solver (.judge 0)
  let n ← onward p o chain solver fuel 0 stop
  finish p o chain solver n

def course (fuel : Nat) : Tale ε α Unit := do
  visitEach p o solver (hooks chain .start 0)
  Scribe.tacit (modify (Session.note (openingEntry p o solver)))
  let stop ← visit p o solver (.judge 0)
  let n ← onward p o chain solver fuel 0 stop
  finish p o chain solver n

def solve (fuel : Nat) : Tale ε α Unit := do
  Scribe.tacit (validate p)
  Scribe.tacit (modify (Session.advance opened))
  let _ ← visit p o solver .prepare
  course p o chain solver fuel

end
end Narrated

/-- The calls of a run in the order in which they are made, the failed one included. -/
def history (fuel : Nat) (p : Problem ε α) (o : Options ε α) (chain : List (Decorator ε α))
    (solver : Solver ε α) (s : Session ε α) : List (Visit ε α) :=
  (Narrated.solve p o chain solver fuel s).1

section
variable (p : Problem ε α) (o : Options ε α) (chain : List (Decorator ε α)) (solver : Solver ε α)

omit [Scalar α] in
theorem observing_run_bind {β γ : Type} (m : Observe ε α β) (k : β → Observe ε α γ) :
    (Session.observing ε α).run (m >>= k) =
      (Session.observing ε α).run m >>= fun b => (Session.observing ε α).run (k b) := by
  funext s
  rcases h : m ((Session.observing ε α).get s) with ⟨b, t⟩ | ⟨e, t⟩
  · rw [bind_of_ok (Part.run_of_ok _ h), Part.run, bind_of_ok h]
    rfl
  · rw [bind_of_error (Part.run_of_error _ h), Part.run_of_error _ (bind_of_error h)]

theorem tell_cons (d : Decorator ε α) (ds : List (Decorator ε α)) (phase : Phase) (k : Nat) :
    tell p (d :: ds) phase (Int.ofNat k) =
      Call.perform p o solver (.hook phase k d) >>= fun _ => tell p ds phase (Int.ofNat k) := by
  funext s
  let t := s.moment p (Int.ofNat k) (decide (phase = .stop))
  change (Session.observing ε α).run (d.tell phase t >>= fun _ => Decorator.tellEach phase t ds) s =
    (((Session.observing ε α).run (d.tell phase t) >>= fun _ => pure false) >>=
      fun _ => tell p ds phase (Int.ofNat k)) s
  rw [observing_run_bind]
  rcases h : d.tell phase t ((Session.observing ε α).get s) with ⟨u, w⟩ | ⟨e, w⟩
  · rw [bind_of_ok (Part.run_of_ok _ h), bind_assoc, bind_of_ok (Part.run_of_ok _ h)]
    rfl
  · rw [bind_of_error (Part.run_of_error _ h), bind_assoc, bind_of_error (Part.run_of_error _ h)]

theorem outcome_visitEach (phase : Phase) (k : Nat) :
    (Narrated.visitEach p o solver (hooks chain phase k)).outcome =
      tell p chain phase (Int.ofNat k) := by
  induction chain with
  | nil => rfl
  | cons d ds ih =>
    rw [tell_cons p o solver, ← ih]
    exact Scribe.outcome_bind _ _

theorem outcome_pass (k : Nat) :
    (Narrated.pass p o chain solver k).outcome = pass p o chain solver (Int.ofNat k) := by
  simp only [Narrated.pass, Narrated.visit, Narrated.measure, Call.perform, pass,
    Scribe.outcome_bind, Scribe.outcome_tacit, Scribe.outcome_entering, outcome_visitEach,
    bind_assoc, pure_bind]
  funext s
  rfl

theorem outcome_finish (n : Nat) :
    (Narrated.finish p o chain solver n).outcome = finish p o chain solver n := by
  simp only [Narrated.finish, Narrated.close, finish, Scribe.outcome_bind, Scribe.outcome_tacit,
    outcome_visitEach, bind_assoc]

theorem outcome_onward (fuel done : Nat) (stop : Bool) :
    (Narrated.onward p o chain solver fuel done stop).outcome =
      if stop then pure done else iterate p o chain solver fuel done := by
  induction fuel, done, stop using Narrated.onward.induct with
  | case1 fuel done =>
    rw [Narrated.onward]
    rfl
  | case2 done => rfl
  | case3 fuel done ih =>
    simp only [Narrated.onward, iterate, Scribe.outcome_bind, outcome_pass, ih]
    rfl

/-- The run with its calls listed is the run. -/
theorem outcome_solve (fuel : Nat) :
    (Narrated.solve p o chain solver fuel).outcome = solve fuel p o chain solver := by
  have hite (stop : Bool) : (if stop then pure 0 else iterate p o chain solver fuel 0) >>=
      finish p o chain solver = if stop then finish p o chain solver 0 else
        iterate p o chain solver fuel 0 >>= finish p o chain solver := by
    cases stop <;> rfl
  simp only [Narrated.solve, Narrated.course, Narrated.visit, solve, begin, Call.perform,
    Scribe.outcome_bind, Scribe.outcome_tacit, Scribe.outcome_entering, outcome_visitEach,
    outcome_onward, outcome_finish, hite, bind_assoc, pure_bind]
  rfl

end
end Geodescent.Solver
