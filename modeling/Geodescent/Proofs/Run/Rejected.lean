import Geodescent.Proofs.Descent.Realised
import Geodescent.Proofs.Observation.Log
import Geodescent.Solver.Sweep

/-! Runs that are turned down, because of the starting point or because the solver cannot work with
the options. They ask nothing and leave nothing behind: `rejected_law`. -/
namespace Geodescent

/-- Nothing has changed but the books, and the point at most into the array that it stands for. -/
structure Session.Untouched {ε α : Type} [Scalar α] (s t : Session ε α) : Prop where
  env : t.env = s.env
  settings : t.settings = s.settings
  nodes : t.nodes = s.nodes
  memory : t.memory = s.memory
  console : t.console = s.console
  journal : t.journal = s.journal
  gradient : t.state.gradient = s.state.gradient
  lastStepsize : t.state.position.lastStepsize = s.state.position.lastStepsize
  x : t.state.x = s.state.x ∨ ∃ v, s.state.x.toVec = .ok v ∧ t.state.x = .array v

structure Session.SameBooks {ε α : Type} (s t : Session ε α) : Prop where
  iteration : t.state.iteration = s.state.iteration
  lastChange : t.state.lastChange = s.state.lastChange
  stopReason : t.state.stopReason = s.state.stopReason

namespace Solver
variable {ε α : Type} [Scalar α] {p p' : Problem ε α} {o o' : Options ε α} {solver : Solver ε α}
  {s s₁ t : Session ε α} {cause : Misuse α}

/-- Ways in which a starting point is turned down. -/
inductive PointRejected (p : Problem ε α) (s : Session ε α) : Misuse α → Prop
  | noPoint (missing : s.state.x = .none) : PointRejected p s .noPoint
  | noArray {r : Refusal} (given : s.state.x ≠ .none) (refused : s.state.x.toVec = .error r)
      (small : r ≠ .tooLarge) : PointRejected p s (.noArray s.state.x)
  | offManifold {v : Vec α} (array : startingPoint s.state.x = .ok v)
      (checked : s.settings.validate.holds = .ok true)
      (outside : p.manifold.contains (.array v) s.settings.tolerance = .ok false) :
      PointRejected p s (.offManifold p.manifold.text (.array v))

inductive OptionsRejected (o : Options ε α) : Solver ε α → Misuse α → Prop
  | retraction {cause : Misuse α} (unusable : carrier o = .error (.misuse cause)) :
      OptionsRejected o descent cause
  | order {order : Datum α} {cause : Misuse α} (given : orderOf o = .ok order)
      (unusable : checkOrder order = .error (.misuse cause)) : OptionsRejected o sweep cause
  | stepsize {order : Datum α} (given : orderOf o = .ok order) (known : checkOrder order = .ok ())
      (needs : o.stepsize.needsGradient = true) :
      OptionsRejected o sweep
        (.needsGradient o.stepsize.kind (.thing o.stepsize.kind o.stepsize.written))

/-- A run that is turned down, before it starts or by its solver. -/
inductive Rejected (p : Problem ε α) (o : Options ε α) (solver : Solver ε α) (s : Session ε α)
    (cause : Misuse α) : Prop
  | point (h : PointRejected p s cause)
  | options {s₁ : Session ε α} (accepted : validate p s = .ok () s₁)
      (h : OptionsRejected o solver cause)

section Validate

def arrayed (v : Vec α) (s : Session ε α) : Session ε α :=
  s.advance fun state => { state with position := state.position.moveTo (.array v) }

theorem toVec_of_startingPoint {x : Point α} {v : Vec α} (h : startingPoint x = .ok v) :
    x.toVec = .ok v := by
  unfold startingPoint at h
  split at h
  · cases h
  · split at h
    · cases h
    · cases h
    · cases h
      assumption

theorem startingPoint_of_refused {x : Point α} {r : Refusal} (given : x ≠ .none)
    (refused : x.toVec = .error r) (small : r ≠ .tooLarge) :
    startingPoint x = .error (.misuse (.noArray x)) := by
  unfold startingPoint
  split
  · exact absurd rfl given
  · rw [refused]
    cases r with
    | tooLarge => exact absurd rfl small
    | wrongType | wrongValue | divisionByZero | outOfBounds | noSuchField | noSuchKey
    | immutable => rfl

theorem untouched_refl (s : Session ε α) : s.Untouched s :=
  ⟨rfl, rfl, rfl, rfl, rfl, rfl, rfl, rfl, .inl rfl⟩

theorem untouched_arrayed {v : Vec α} (h : startingPoint s.state.x = .ok v) :
    s.Untouched (arrayed v s) :=
  ⟨rfl, rfl, rfl, rfl, rfl, rfl, rfl, rfl, .inr ⟨v, toVec_of_startingPoint h, rfl⟩⟩

theorem validate_of_point_error {e : Fault α} (h : startingPoint s.state.x = .error e) :
    validate p s = .error e s := by
  have hpoint : startingPoint s.state.position.x = .error e := h
  unfold validate
  rw [get_bind, hpoint]
  rfl

theorem validate_of_point {v : Vec α} (h : startingPoint s.state.x = .ok v) :
    validate p s = (settled (checkPoint s.settings p v) : Run ε α Unit) (arrayed v s) := by
  have hpoint : startingPoint s.state.position.x = .ok v := h
  unfold validate
  rw [get_bind, hpoint]
  rfl

theorem untouched_validate (h : validate p s = .ok () s₁) : s.Untouched s₁ := by
  rcases hpoint : startingPoint s.state.x with e | v
  · rw [validate_of_point_error hpoint] at h
    cases h
  · rw [validate_of_point hpoint] at h
    obtain ⟨-, rfl⟩ := settled_eq_ok_iff.mp h
    exact untouched_arrayed hpoint

theorem validate_congr (h : p'.manifold = p.manifold) : validate p' s = validate p s := by
  unfold validate checkPoint
  rw [h]

theorem PointRejected.validate_error (h : PointRejected p s cause) :
    ∃ t, validate p s = .error (.misuse cause) t ∧ s.Untouched t ∧ s.SameBooks t := by
  cases h with
  | noPoint missing =>
    have hpoint : startingPoint s.state.x = .error (.misuse .noPoint) := by
      rw [missing]
      rfl
    exact ⟨s, validate_of_point_error hpoint, untouched_refl s, rfl, rfl, rfl⟩
  | noArray given refused small =>
    have hpoint := startingPoint_of_refused given refused small
    exact ⟨s, validate_of_point_error hpoint, untouched_refl s, rfl, rfl, rfl⟩
  | @offManifold v array checked outside =>
    have hcheck : checkPoint s.settings p v =
        .error (.misuse (.offManifold p.manifold.text (.array v))) := by
      unfold checkPoint
      rw [checked, outside]
      rfl
    refine ⟨arrayed v s, ?_, untouched_arrayed array, rfl, rfl, rfl⟩
    rw [validate_of_point array, hcheck]
    rfl

end Validate

section Prepare

omit [Scalar α] in
theorem carrier_congr (h : o'.flavour = o.flavour) : carrier o' = carrier o := by
  unfold carrier
  rw [h]

omit [Scalar α] in
theorem orderOf_congr (h : o'.flavour = o.flavour) : orderOf o' = orderOf o := by
  unfold orderOf
  rw [h]

theorem OptionsRejected.congr (h : OptionsRejected o solver cause)
    (hflavour : o'.flavour = o.flavour) (hstepsize : o'.stepsize = o.stepsize) :
    OptionsRejected o' solver cause := by
  cases h with
  | retraction unusable => exact .retraction ((carrier_congr hflavour).trans unusable)
  | order given unusable => exact .order ((orderOf_congr hflavour).trans given) unusable
  | stepsize given known needs =>
    rw [← hstepsize] at needs ⊢
    exact .stepsize ((orderOf_congr hflavour).trans given) known needs

theorem OptionsRejected.prepare_error (h : OptionsRejected o solver cause) (u : Stepping ε α) :
    solver.prepare p o u = .error (.misuse cause) u := by
  cases h with
  | retraction unusable =>
    unfold descent
    dsimp only
    rw [unusable]
    rfl
  | order given unusable =>
    unfold sweep
    dsimp only
    rw [given, settled_ok_bind, unusable]
    rfl
  | stepsize given known needs =>
    unfold sweep
    dsimp only
    rw [given, settled_ok_bind, known, settled_ok_bind, if_pos needs]
    rfl

theorem OptionsRejected.perform_error (h : OptionsRejected o solver cause) :
    Call.prepare.perform p o solver s = .error (.misuse cause) s := by
  have hprepare : solver.prepare p o ((Session.stepping ε α).get s) =
      .error (.misuse cause) ((Session.stepping ε α).get s) := h.prepare_error _
  exact bind_of_error (Part.run_of_error (Session.stepping ε α) hprepare)

end Prepare

section Solve
variable {chain : List (Decorator ε α)} {fuel : Nat} {e : Fault α}

theorem solve_of_validate_error (h : validate p s = .error e t) :
    Narrated.solve p o chain solver fuel s = ([], .error e t) :=
  Scribe.tacit_bind_of_error h

theorem solve_of_prepare_error (hvalid : validate p s = .ok () s₁)
    (hprepare : Call.prepare.perform p o solver (s₁.advance opened) = .error e t) :
    Narrated.solve p o chain solver fuel s =
      ([⟨.prepare, s₁.advance opened, .error e t⟩], .error e t) := by
  have hvisit : Narrated.visit p o solver .prepare (s₁.advance opened) =
      ([⟨.prepare, s₁.advance opened, .error e t⟩], .error e t) :=
    Prod.ext (congrArg (fun r => [Visit.mk .prepare (s₁.advance opened) r]) hprepare) hprepare
  have hopened : (modify (Session.advance opened) : Run ε α Unit) s₁ =
      .ok () (s₁.advance opened) := rfl
  unfold Narrated.solve
  rw [Scribe.tacit_bind_of_ok hvalid, Scribe.tacit_bind_of_ok hopened]
  exact Scribe.bind_of_error hvisit

end Solve

/-- The law of rejected runs. Whatever the chain, the criterion and the oracles are, the run fails
with the complaint, in one and the same session: no more than the preparation has been called, and
all that has changed are the books, and the point into an array. A starting point is turned down
before anything is called, and the books are left alone too. -/
theorem rejected_law (h : Rejected p o solver s cause) :
    ∃ t, s.Untouched t ∧ (PointRejected p s cause → s.SameBooks t) ∧
      ∀ (p' : Problem ε α) (o' : Options ε α) (chain : List (Decorator ε α)) (fuel : Nat),
        p'.manifold = p.manifold → o'.flavour = o.flavour → o'.stepsize = o.stepsize →
        solve fuel p' o' chain solver s = .error (.misuse cause) t ∧
        (∀ v ∈ history fuel p' o' chain solver s, v.call = .prepare) ∧
        (PointRejected p s cause → history fuel p' o' chain solver s = []) := by
  cases h with
  | point h =>
    obtain ⟨t, hvalid, untouched, books⟩ := h.validate_error
    refine ⟨t, untouched, fun _ => books, fun p' o' chain fuel hmanifold _ _ => ?_⟩
    have hsolve : Narrated.solve p' o' chain solver fuel s = ([], .error (.misuse cause) t) :=
      solve_of_validate_error ((validate_congr hmanifold).trans hvalid)
    rw [← outcome_solve, Scribe.outcome, history, hsolve]
    exact ⟨rfl, fun v hv => absurd hv List.not_mem_nil, fun _ => rfl⟩
  | @options s₁ accepted h =>
    have untouched : s.Untouched s₁ := untouched_validate accepted
    have hnot : ¬ PointRejected p s cause := by
      intro hpoint
      obtain ⟨t, hvalid, -⟩ := hpoint.validate_error
      cases accepted.symm.trans hvalid
    refine ⟨s₁.advance opened, { untouched with }, fun hpoint => absurd hpoint hnot,
      fun p' o' chain fuel hmanifold hflavour hstepsize => ?_⟩
    have hsolve : Narrated.solve p' o' chain solver fuel s =
        ([⟨.prepare, s₁.advance opened, .error (.misuse cause) (s₁.advance opened)⟩],
          .error (.misuse cause) (s₁.advance opened)) :=
      solve_of_prepare_error ((validate_congr hmanifold).trans accepted)
        (h.congr hflavour hstepsize).perform_error
    rw [← outcome_solve, Scribe.outcome, history, hsolve]
    refine ⟨rfl, fun v hv => ?_, fun hpoint => absurd hpoint hnot⟩
    rw [List.mem_singleton.mp hv]

def nowhere : Session Unit Float :=
  hillside.advance fun state => { state with position := state.position.moveTo .none }

theorem rejected_law_hillside :
    (∃ t, nowhere.SameBooks t ∧
      solve 1 valley (searching halving .standard) [.record ledger] descent nowhere =
        .error (.misuse .noPoint) t) ∧
    ∃ t, hillside.Untouched t ∧
      solve 1 valley (searching halving (.given (.text "straight"))) [.record ledger] descent
        hillside = .error (.misuse (.unknownRetraction "straight")) t := by
  constructor
  · have hpoint : PointRejected valley nowhere .noPoint := .noPoint rfl
    have hrejected : Rejected valley (searching halving .standard) descent nowhere .noPoint :=
      .point hpoint
    obtain ⟨t, -, books, hsolve⟩ := rejected_law hrejected
    exact ⟨t, books hpoint, (hsolve valley _ [.record ledger] 1 rfl rfl rfl).1⟩
  · obtain ⟨_, s₁, hvalid, -⟩ : ∃ b t, validate valley hillside = .ok b t ∧ True := by
      decide +kernel
    have hrejected : Rejected valley (searching halving (.given (.text "straight"))) descent
        hillside (.unknownRetraction "straight") := .options hvalid (.retraction rfl)
    obtain ⟨t, untouched, -, hsolve⟩ := rejected_law hrejected
    exact ⟨t, untouched, (hsolve valley _ [.record ledger] 1 rfl rfl rfl).1⟩

end Solver
end Geodescent
