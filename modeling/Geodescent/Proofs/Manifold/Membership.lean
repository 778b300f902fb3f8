import Mathlib.Tactic.NormNum
import Geodescent.Manifold.Sphere
import Geodescent.Proofs.Run.Rejected
import Geodescent.Proofs.Settings
import Geodescent.Proofs.Sweep.Exact

/-! Points of the sphere, up to the tolerance in the settings. The test of points and the check before
a run agree on all arrays, and both allow a fixed error of `1e-5` on top of the tolerance:
`membership_law`. -/
namespace Geodescent

namespace Manifold.Sphere
variable {α : Type} [Scalar α] {n : Nat} {t : Datum α} {τ : α} {v : Vec α}

/-- What numbers are as tolerances. Whole numbers have to fit an entry of an array. -/
inductive Reads : Datum α → α → Prop
  | real (x : α) : Reads (.real x) (Scalar.flush x)
  | whole {m : Int} (fits : fitsEntry m = true) : Reads (.whole m) (Scalar.ofInt m)
  | truth (b : Bool) : Reads (.truth b) (Scalar.ofInt b.toInt)

theorem Reads.tolerances (h : Reads t τ) : tolerances t = .ok [τ] := by
  cases h with
  | real | truth => rfl
  | @whole m fits =>
    rw [Sphere.tolerances, Datum.argument, Datum.unfit?, if_pos fits, Datum.operand, if_pos fits]
    · rfl
    · exact nofun

theorem tolerances_of_wide {m : Int} (wide : fitsEntry m = false) :
    tolerances (.whole m : Datum α) = .error .tooLarge := by
  rw [tolerances, Datum.argument, Datum.unfit?, if_neg (Bool.eq_false_iff.mp wide)]
  · rfl
  · exact nofun

/-- An array of the right shape whose length is one up to a tolerance. -/
structure Near (n : Nat) (τ : α) (v : Vec α) : Prop where
  shape : v.shape = [n + 1]
  unit : isUnit τ v.norm = true

instance : Decidable (Near n τ v) :=
  decidable_of_iff (v.shape = [n + 1] ∧ isUnit τ v.norm = true)
    ⟨fun h => ⟨h.1, h.2⟩, fun h => ⟨h.shape, h.unit⟩⟩

theorem isLine_whole (n : Nat) (v : Vec α) :
    isLine (.whole n) v = .ok (decide (v.shape = [n])) := by
  unfold isLine
  split
  · rename_i k hshape
    rw [hshape]
    change Except.ok (decide ((n : Int) = k)) = _
    simp only [Nat.cast_inj, List.cons.injEq, and_true, eq_comm]
  · rename_i hshape
    rw [decide_eq_false (hshape n)]

theorem contains_array (n : Nat) (v : Vec α) (t : Datum α) :
    (sphereOf (.whole n)).contains (.array v) t =
      if v.shape = [n + 1] then
        refusing (tolerances t) >>= fun ts => .ok (ts.all (isUnit · v.norm))
      else .ok false := by
  have hsuccessor : (successor (.whole n) : Answer α (Datum α)) = .ok (.whole (n + 1 : Nat)) := rfl
  have hcontains : (sphereOf (.whole n)).contains (.array v) t =
      (do
        let size ← successor (.whole n)
        if ← isLine size v then
          let ts ← refusing (Sphere.tolerances t)
          .ok (ts.all (Sphere.isUnit · v.norm))
        else .ok false) := rfl
  rw [hcontains, hsuccessor]
  change (isLine (.whole (n + 1 : Nat)) v >>= _) = _
  rw [isLine_whole]
  by_cases h : v.shape = [n + 1]
  · rw [if_pos h, decide_eq_true h]
    rfl
  · rw [if_neg h, decide_eq_false h]
    rfl

theorem contains_of_reads (h : Reads t τ) :
    (sphereOf (.whole n)).contains (.array v) t = .ok (decide (Near n τ v)) := by
  rw [contains_array]
  split
  · rename_i hshape
    rw [h.tolerances]
    have hnear : isUnit τ v.norm = decide (Near n τ v) := by
      rw [Bool.eq_iff_iff, decide_eq_true_iff]
      exact ⟨Near.mk hshape, Near.unit⟩
    change Except.ok (isUnit τ v.norm && true) = _
    rw [Bool.and_true, hnear]
  · rename_i hshape
    rw [decide_eq_false fun h => hshape h.shape]

theorem contains_of_wide {m : Int} (wide : fitsEntry m = false) (shape : v.shape = [n + 1]) :
    (sphereOf (.whole n)).contains (.array v) (.whole m) = .error (.refused .tooLarge) := by
  rw [contains_array, if_pos shape, tolerances_of_wide wide]
  rfl

theorem isUnit_real {t ℓ : ℝ} (ht : 0 < t) : isUnit t ℓ = true ↔ |ℓ - 1| ≤ t + 1 / 100000 := by
  have hextra : t + Scalar.ofDecimal ⟨false, 1, -5⟩ * Scalar.magnitude (1 : ℝ) = t + 1 / 100000 := by
    have hdecimal : (Scalar.ofDecimal ⟨false, 1, -5⟩ : ℝ) = 1 / 100000 := by
      change (if false = true then (-1 : ℝ) else 1) * (1 : ℕ) * (10 : ℝ) ^ (-5 : Int) = _
      norm_num
    rw [Scalar.magnitude_eq_abs, abs_one, mul_one, hdecimal]
  have hunit : isUnit t ℓ = true ↔ ℓ = 1 ∨ |ℓ - 1| ≤ t + 1 / 100000 := by
    rw [isUnit, Scalar.magnitude_eq_abs, hextra, Bool.or_eq_true]
    exact or_congr decide_eq_true_iff decide_eq_true_iff
  rw [hunit, or_iff_right_iff_imp]
  rintro rfl
  rw [sub_self, abs_zero]
  positivity

end Manifold.Sphere

namespace Solver
variable {α : Type} [Scalar α] {M : Manifold α} {settings : Settings α} {v : Vec α} {e : Fault α}

/-- Runs on a manifold under these settings, started from an array, get past their check of it, and
their solver is called. -/
def Admits (M : Manifold α) (settings : Settings α) (v : Vec α) : Prop :=
  ∀ {ε : Type} (p : Problem ε α) (s : Session ε α), p.manifold = M → s.settings = settings →
    startingPoint s.state.x = .ok v → validate p s = .ok () (arrayed v s) ∧
      ∀ (o : Options ε α) (chain : List (Decorator ε α)) (solver : Solver ε α) (fuel : Nat),
        ∃ r rest, history fuel p o chain solver s =
          ⟨.prepare, (arrayed v s).advance opened, r⟩ :: rest

/-- Such runs fail on their check, and nothing is called. -/
def TurnsDown (M : Manifold α) (settings : Settings α) (v : Vec α) (e : Fault α) : Prop :=
  ∀ {ε : Type} (p : Problem ε α) (s : Session ε α), p.manifold = M → s.settings = settings →
    startingPoint s.state.x = .ok v →
      ∀ (o : Options ε α) (chain : List (Decorator ε α)) (solver : Solver ε α) (fuel : Nat),
        solve fuel p o chain solver s = .error e (arrayed v s) ∧
        history fuel p o chain solver s = []

theorem history_of_validate {ε : Type} {p : Problem ε α} {o : Options ε α}
    {chain : List (Decorator ε α)} {solver : Solver ε α} {fuel : Nat} {s s₁ : Session ε α}
    (h : validate p s = .ok () s₁) :
    ∃ r rest, history fuel p o chain solver s = ⟨.prepare, s₁.advance opened, r⟩ :: rest := by
  rcases hprepare : Call.prepare.perform p o solver (s₁.advance opened) with ⟨b, u⟩ | ⟨e, u⟩
  · have hopened : (modify (Session.advance opened) : Run ε α Unit) s₁ =
        .ok () (s₁.advance opened) := rfl
    rw [history, Narrated.solve, Scribe.tacit_bind_of_ok h, Scribe.tacit_bind_of_ok hopened,
      Scribe.bind_of_ok (visit_eq_ok_iff.mpr ⟨hprepare, rfl⟩)]
    exact ⟨_, _, rfl⟩
  · rw [history, solve_of_prepare_error h hprepare]
    exact ⟨_, _, rfl⟩

theorem turnsDown_of_check
    (h : ∀ {ε : Type} (p : Problem ε α), p.manifold = M → checkPoint settings p v = .error e) :
    TurnsDown M settings v e := by
  rintro ε p s hmanifold rfl hpoint o chain solver fuel
  have hvalid : validate p s = .error e (arrayed v s) := by
    rw [validate_of_point hpoint, h p hmanifold]
    rfl
  rw [← outcome_solve, Scribe.outcome, history, solve_of_validate_error hvalid]
  exact ⟨rfl, rfl⟩

section Checked
variable (checked : settings.validate.holds = .ok true)
include checked

theorem checkPoint_eq {ε : Type} (p : Problem ε α) :
    checkPoint settings p v = p.manifold.contains (.array v) settings.tolerance >>= fun inside =>
      if inside then .ok () else .error (.misuse (.offManifold p.manifold.text (.array v))) := by
  rw [checkPoint, checked]
  rfl

theorem accepted_of_contains (inside : M.contains (.array v) settings.tolerance = .ok true) :
    M.check (.array v) settings.tolerance = .ok () ∧ Admits M settings v := by
  refine ⟨(M.check_eq_ok_iff _ _).mpr inside, ?_⟩
  rintro ε p s rfl rfl hpoint
  have hvalid : validate p s = .ok () (arrayed v s) := by
    rw [validate_of_point hpoint, checkPoint_eq checked, inside]
    rfl
  exact ⟨hvalid, fun o chain solver fuel => history_of_validate hvalid⟩

theorem rejected_of_contains (outside : M.contains (.array v) settings.tolerance = .ok false) :
    M.check (.array v) settings.tolerance =
        .error (.invalidPoint M.text settings.tolerance (.array v)) ∧
      TurnsDown M settings v (.misuse (.offManifold M.text (.array v))) := by
  refine ⟨?_, turnsDown_of_check fun p hmanifold => ?_⟩
  · rw [Manifold.check, outside]
    rfl
  · rw [checkPoint_eq checked, hmanifold, outside]
    rfl

theorem failed_of_contains (h : M.contains (.array v) settings.tolerance = .error e) :
    M.check (.array v) settings.tolerance = .error e ∧ TurnsDown M settings v e := by
  refine ⟨?_, turnsDown_of_check fun p hmanifold => ?_⟩
  · rw [Manifold.check, h]
    rfl
  · rw [checkPoint_eq checked, hmanifold, h]
    rfl

end Checked

section Law

/-- The law of membership. Under a tolerance in the settings, a run and the test of points agree on
every array: they accept it if it has one entry more than the dimension and its length is one up to
the tolerance and `1e-5` more, refuse a whole number that is too large for a tolerance where the shape
is right, and complain of everything else, before anything is called. -/
theorem membership_law {n : Nat} {t : Datum α} {other : Settings α}
    {changes : List (String × Datum α)} {entry : JournalEntry}
    (made : Manifold.sphere (.whole n) = .ok M)
    (configured : other.configure changes = .ok (settings, entry))
    (given : Settings.lastGiven? changes "point_atol" = some t)
    (checked : settings.validate.holds = .ok true) :
    (∀ τ, Manifold.Sphere.Reads t τ → ∀ v,
      (Manifold.Sphere.Near n τ v → M.check (.array v) t = .ok () ∧ Admits M settings v) ∧
      (¬ Manifold.Sphere.Near n τ v →
        M.check (.array v) t = .error (.invalidPoint M.text t (.array v)) ∧
        TurnsDown M settings v (.misuse (.offManifold M.text (.array v))))) ∧
    (∀ m, t = .whole m → fitsEntry m = false → ∀ v,
      (v.shape = [n + 1] → M.check (.array v) t = .error (.refused .tooLarge) ∧
        TurnsDown M settings v (.refused .tooLarge)) ∧
      (v.shape ≠ [n + 1] → M.check (.array v) t = .error (.invalidPoint M.text t (.array v)) ∧
        TurnsDown M settings v (.misuse (.offManifold M.text (.array v))))) ∧
    ∀ (τ : ℝ) (v : Vec ℝ), 0 < τ →
      (Manifold.Sphere.Near n τ v ↔ v.shape = [n + 1] ∧ |v.norm - 1| ≤ τ + 1 / 100000) := by
  have htolerance : settings.tolerance = t := by
    have hget : settings.get? "point_atol" = _ := Settings.get?_of_configure configured (by decide)
    rw [given] at hget
    exact Option.some.inj hget
  obtain ⟨-, -, hmade⟩ := bind_eq_ok_iff.mp made
  cases hmade
  subst htolerance
  refine ⟨fun τ reads v => ?_, fun m hm wide v => ?_, fun τ v hτ => ?_⟩
  · have hcontains := Manifold.Sphere.contains_of_reads (n := n) (v := v) reads
    constructor
    · intro near
      rw [decide_eq_true near] at hcontains
      exact accepted_of_contains checked hcontains
    · intro far
      rw [decide_eq_false far] at hcontains
      exact rejected_of_contains checked hcontains
  · constructor
    · intro shape
      have hcontains := Manifold.Sphere.contains_of_wide wide shape
      rw [← hm] at hcontains
      exact failed_of_contains checked hcontains
    · intro shape
      have hcontains := Manifold.Sphere.contains_array n v settings.tolerance
      rw [if_neg shape] at hcontains
      exact rejected_of_contains checked hcontains
  · constructor
    · exact fun near => ⟨near.shape, (Manifold.Sphere.isUnit_real hτ).mp near.unit⟩
    · exact fun ⟨shape, unit⟩ => ⟨shape, (Manifold.Sphere.isUnit_real hτ).mpr unit⟩

def offCircle : Vec Float := .ofReals [1.000005, 0]

theorem membership_law_circle : ∃ settings entry,
    Settings.standard.configure [("point_atol", .real 1e-6)] = .ok (settings, entry) ∧
    ((Manifold.sphereOf (.whole 1)).check (.array (.ofReals [0.6, 0.8])) (.real 1e-6) =
        (.ok () : Answer Float Unit) ∧
      Admits (Manifold.sphereOf (.whole 1)) settings (.ofReals [0.6, 0.8])) ∧
    TurnsDown (Manifold.sphereOf (.whole 1)) settings (.ofReals [2, 0])
      (.misuse (.offManifold "Sphere(1)" (.array (.ofReals [2, 0])))) := by
  obtain ⟨entry, configured⟩ := Settings.configure_single (s := .standard)
    (by decide : "point_atol" ∈ settingNames) (.real 1e-6)
  have made : (Manifold.sphere (.whole (1 : Nat)) : Answer Float (Manifold Float)) =
      .ok (Manifold.sphereOf (.whole 1)) := rfl
  obtain ⟨hpoints, -⟩ := membership_law made configured rfl rfl
  refine ⟨_, entry, configured, ?_, ?_⟩
  · exact (hpoints _ (.real 1e-6) _).1 (by decide +kernel)
  · exact ((hpoints _ (.real 1e-6) _).2 (by decide +kernel)).2

/-- The length of the point is not one up to the tolerance, and yet the test and the check accept it. -/
theorem accepted_off_circle : ∃ settings entry,
    Settings.standard.configure [("point_atol", .real 1e-6)] = .ok (settings, entry) ∧
    Scalar.le (Scalar.magnitude (offCircle.norm - 1)) 1e-6 = false ∧
    (Manifold.sphereOf (.whole 1)).check (.array offCircle) (.real 1e-6) = .ok () ∧
    Admits (Manifold.sphereOf (.whole 1)) settings offCircle := by
  obtain ⟨entry, configured⟩ := Settings.configure_single (s := .standard)
    (by decide : "point_atol" ∈ settingNames) (.real 1e-6)
  have near : Manifold.Sphere.Near 1 (Scalar.flush 1e-6) offCircle := by decide +kernel
  have inside : (Manifold.sphereOf (.whole (1 : Nat))).contains (.array offCircle) (.real 1e-6) =
      .ok true := by
    rw [Manifold.Sphere.contains_of_reads (.real 1e-6), decide_eq_true near]
  have checked : (Settings.standard.put "point_atol" (.real (1e-6 : Float))).validate.holds =
      .ok true := rfl
  obtain ⟨hcheck, admits⟩ := accepted_of_contains checked inside
  exact ⟨_, entry, configured, by decide +kernel, hcheck, admits⟩

end Law
end Solver
end Geodescent
