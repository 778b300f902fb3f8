import Geodescent.Stepsize.Armijo
import Geodescent.Stepsize.Schedule

/-!
Rules for the length of a step: constant, following a schedule, found by a line search, or given
from outside. A value may stand in the place of a rule until it is used. What a rule answers is
checked before it is used.
-/
namespace Geodescent

inductive Stepsize (ε α : Type) where
  | constant (length : α)
  | decreasing (schedule : Schedule α)
  | armijo (rule : Armijo ε α)
  | custom (kind shown : String) (rule : Position α → Datum α → Asking ε α (Datum α))
  | value (d : Datum α)

namespace Stepsize
variable {ε α : Type} [Scalar α]

def makeConstant (length : Datum α) : Answer α (Stepsize ε α) :=
  (Parameter.number "length" .nonnegative length).map .constant

def makeDecreasing (length factor subtrahend exponent : Datum α) : Answer α (Stepsize ε α) :=
  (Schedule.make length factor subtrahend exponent).map .decreasing

def makeArmijo (initial : Datum α) (retraction : RetractionChoice ε α)
    (contraction decrease budget : Datum α) : Answer α (Stepsize ε α) :=
  (Armijo.make initial retraction contraction decrease budget).map .armijo

def next (rule : Stepsize ε α) (settings : Settings α) (p : Problem ε α) (s : Position α)
    (iteration : Datum α) : Working ε α (Datum α) :=
  match rule with
  | .constant length => pure (.real length)
  | .decreasing schedule => settled (refusing (schedule.value iteration))
  | .armijo r => do
    let step ← r.next settings p s iteration
    pure (.real step)
  | .custom _ _ rule => asking (rule s iteration)
  | .value _ => throw (.refused .wrongType)

def needsGradient : Stepsize ε α → Bool
  | .armijo _ => true
  | _ => false

def kind : Stepsize ε α → String
  | .constant _ => "ConstantStepsize"
  | .decreasing _ => "DecreasingStepsize"
  | .armijo _ => "ArmijoLinesearch"
  | .custom kind _ _ => kind
  | .value d => d.kind

def written : Stepsize ε α → String
  | .constant length => "ConstantStepsize(" ++ Scalar.standard length ++ ")"
  | .decreasing s =>
    "DecreasingStepsize(length=" ++ Scalar.standard s.length ++ ", factor=" ++
      Scalar.standard s.factor ++ ", subtrahend=" ++ Scalar.standard s.subtrahend ++
      ", exponent=" ++ Scalar.standard s.exponent ++ ")"
  | .armijo r => r.written
  | .custom _ shown _ => shown
  | .value d => d.written

def shown : Stepsize ε α → Datum α
  | .value d => d
  | rule => .text rule.written

def parameters : Stepsize ε α → List (String × Datum α)
  | .constant length => [("length", .real length)]
  | .decreasing s =>
    [("length", .real s.length), ("factor", .real s.factor), ("subtrahend", .real s.subtrahend),
      ("exponent", .real s.exponent)]
  | .armijo r =>
    [("initial_stepsize", .real r.initial), ("contraction_factor", .real r.contraction),
      ("sufficient_decrease", .real r.decrease), ("max_backtracks", r.budget)]
  | .custom .. => []
  | .value _ => []

def unwritten (shown : String) : Stepsize ε α :=
  .custom "Stepsize" shown fun _ _ => throw (.missing .step)

/-- A finite step that is not negative, and not zero where that is not allowed. -/
def usable (step : α) (allowZero : Bool) : Bool :=
  Scalar.isFinite step && !Scalar.lt step 0 && (allowZero || !Scalar.eq step 0)

def check (answer : Datum α) (iteration : Int) (allowZero : Bool) : Answer α α := do
  let step ← refusing answer.toReal
  if usable step allowZero then .ok step else .error (.unusableStep step iteration)

theorem check_eq_ok_iff {answer : Datum α} {iteration : Int} {allowZero : Bool} {step : α} :
    check answer iteration allowZero = .ok step ↔
      answer.toReal = .ok step ∧ usable step allowZero = true := by
  constructor
  · intro h
    obtain ⟨y, hy, husable⟩ := bind_eq_ok_iff.mp h
    split at husable
    · cases husable
      exact ⟨refusing_eq_ok_iff.mp hy, ‹_›⟩
    · cases husable
  · rintro ⟨hreal, husable⟩
    refine bind_eq_ok_iff.mpr ⟨step, refusing_eq_ok_iff.mpr hreal, ?_⟩
    rw [if_pos husable]

theorem check_of_unusable {answer : Datum α} {iteration : Int} {allowZero : Bool} {step : α}
    (h : answer.toReal = .ok step) (hstep : usable step allowZero = false) :
    check answer iteration allowZero = .error (.unusableStep step iteration) := by
  unfold check
  rw [h]
  change (if usable step allowZero = true then _ else _) = _
  rw [if_neg (Bool.eq_false_iff.mp hstep)]

end Stepsize
end Geodescent
