import Geodescent.Proofs.Double
import Geodescent.Proofs.Parameter.Slot

/-! Numeric parameters among the doubles. What a constructor keeps is what it was given, as a double in
the documented range; what it refuses has no such double, and only whole numbers beyond all doubles
are refused without the name of the parameter: `validation_law`. -/
namespace Geodescent
variable {ε : Type}

section Ranges
variable {range : Range} {x : Float} {n : Int}

theorem holds_iff_within (finite : Scalar.isFinite x = true) :
    range.Holds x ↔ Parameter.within range (.real x) = true := by
  have hzero : Scalar.isFinite (0 : Float) = true := by decide
  have hone : Scalar.isFinite (1 : Float) = true := by decide
  cases range with
  | nonnegative =>
    rw [Range.Holds, Parameter.within, Double.lt_eq_not_le hzero finite, Bool.not_not]
  | positive => rw [Range.Holds, Parameter.within, Double.lt_eq_not_le finite hzero]
  | belowOne =>
    rw [Range.Holds, Parameter.within, Double.lt_eq_not_le finite hzero,
      Double.lt_eq_not_le hone finite, Bool.and_eq_true]

theorem lt_ofInt_zero_of_neg (h : n < 0) : Scalar.lt (Scalar.ofInt n : Float) 0 = true := by
  have hopposite : n = -((-n).toNat : Int) := by omega
  rw [hopposite]
  exact Double.lt_ofInt_zero (by omega)

theorem le_one_ofInt_of_pos (h : 0 < n) : Scalar.le (1 : Float) (Scalar.ofInt n) = true := by
  rw [← Int.toNat_of_nonneg (Int.le_of_lt h)]
  exact Double.le_one_ofInt (by omega)

theorem lt_zero_ofInt_of_pos (h : 0 < n) : Scalar.lt (0 : Float) (Scalar.ofInt n) = true := by
  rw [← Int.toNat_of_nonneg (Int.le_of_lt h)]
  exact Double.lt_zero_ofInt (by omega)

theorem within_ofInt (finite : Scalar.isFinite (Scalar.ofInt n : Float) = true) :
    Parameter.within range (.real (Scalar.ofInt n : Float)) =
      Parameter.within range (.whole n : Number Float) := by
  have hzero : Scalar.isFinite (0 : Float) = true := by decide
  rcases Int.lt_trichotomy n 0 with hneg | rfl | hpos
  · have hlt := lt_ofInt_zero_of_neg hneg
    have hle := Double.le_of_lt hlt
    cases range <;> simp [Parameter.within, hlt, hle] <;> omega
  · cases range <;> rfl
  · have hle := le_one_ofInt_of_pos hpos
    have hlt := lt_zero_ofInt_of_pos hpos
    have hupper : Scalar.le (Scalar.ofInt n : Float) 0 = false := by
      rw [Double.lt_eq_not_le finite hzero] at hlt
      simpa using hlt
    have hlower : Scalar.lt (Scalar.ofInt n : Float) 0 = false := by
      rw [Double.lt_eq_not_le hzero finite, Double.le_of_lt hlt]
      rfl
    cases range <;> simp [Parameter.within, hle, hupper, hlower] <;> omega

end Ranges

section Checks
variable {d : Datum Float} {x : Float} {name : String} {range : Range}

theorem number_eq_ok_iff : Parameter.number name range d = .ok x ↔
    d.Reads x ∧ Scalar.isFinite x = true ∧ range.Holds x := by
  constructor
  · intro h
    have hfinite := isFinite_of_number h
    rw [holds_iff_within hfinite]
    cases d with
    | whole n =>
      obtain ⟨hn, hwithin⟩ := number_whole_eq_ok_iff.mp h
      obtain ⟨-, rfl⟩ := ofInt?_eq_some_iff.mp hn
      exact ⟨.whole hn, hfinite, (within_ofInt hfinite).trans hwithin⟩
    | real y =>
      obtain ⟨rfl, -, hwithin⟩ := number_real_eq_ok_iff.mp h
      exact ⟨.real y, hfinite, hwithin⟩
    | none | truth | text | list | token | array | stream | table | thing => cases h
  · rintro ⟨reads, hfinite, holds⟩
    have hwithin := (holds_iff_within hfinite).mp holds
    cases reads with
    | real => exact number_real_eq_ok_iff.mpr ⟨rfl, hfinite, hwithin⟩
    | whole hn =>
      obtain ⟨-, rfl⟩ := ofInt?_eq_some_iff.mp hn
      exact number_whole_eq_ok_iff.mpr ⟨hn, (within_ofInt hfinite).symm.trans hwithin⟩

theorem threshold_eq_ok_iff : Parameter.threshold name d = .ok x ↔
    d.Reads x ∧ Scalar.lt 0 x = true := by
  constructor
  · intro h
    cases d with
    | whole n =>
      obtain ⟨hpos, hn⟩ := threshold_whole_eq_ok_iff.mp h
      obtain ⟨-, rfl⟩ := ofInt?_eq_some_iff.mp hn
      exact ⟨.whole hn, lt_zero_ofInt_of_pos hpos⟩
    | real y =>
      obtain ⟨rfl, hpositive⟩ := threshold_real_eq_ok_iff.mp h
      exact ⟨.real y, hpositive⟩
    | none | truth | text | list | token | array | stream | table | thing => cases h
  · rintro ⟨reads, hpositive⟩
    cases reads with
    | real => exact threshold_real_eq_ok_iff.mpr ⟨rfl, hpositive⟩
    | @whole n _ hn =>
      obtain ⟨hfinite, rfl⟩ := ofInt?_eq_some_iff.mp hn
      have hwithin : Parameter.within .positive (.whole n : Number Float) = true := by
        rw [← within_ofInt hfinite, ← holds_iff_within hfinite]
        exact hpositive
      exact threshold_whole_eq_ok_iff.mpr ⟨of_decide_eq_true hwithin, hn⟩

namespace Slot

theorem check_eq_ok_iff {slot : Slot Float} {d : Datum Float} :
    slot.check = .ok d ↔ slot.Keeps d := by
  constructor
  · intro h
    cases slot with
    | number name range given =>
      obtain ⟨x, hx, rfl⟩ := map_eq_ok_iff.mp h
      obtain ⟨reads, finite, holds⟩ := number_eq_ok_iff.mp hx
      exact .number reads finite holds
    | threshold name given =>
      obtain ⟨x, hx, rfl⟩ := map_eq_ok_iff.mp h
      obtain ⟨reads, positive⟩ := threshold_eq_ok_iff.mp hx
      exact .threshold reads positive
    | cap given =>
      obtain ⟨n, hn, rfl⟩ := map_eq_ok_iff.mp h
      cases cap_eq_ok_iff.mp hn
      exact .cap n
    | budget given =>
      obtain ⟨rfl, rfl | ⟨n, rfl⟩⟩ := budget_eq_ok_iff.mp h
      · exact .unset
      · exact .budget n
  · intro h
    cases h with
    | number reads finite holds =>
      exact map_eq_ok_iff.mpr ⟨_, number_eq_ok_iff.mpr ⟨reads, finite, holds⟩, rfl⟩
    | threshold reads positive =>
      exact map_eq_ok_iff.mpr ⟨_, threshold_eq_ok_iff.mpr ⟨reads, positive⟩, rfl⟩
    | cap n =>
      rw [check, cap_eq_ok_iff.mpr rfl]
      rfl
    | budget n => exact budget_eq_ok_iff.mpr ⟨rfl, .inr ⟨n, rfl⟩⟩
    | unset => rfl

end Slot

end Checks

/-- A constructor keeps all values under the names of their parameters, each as documented; or it fails
at the first one that cannot be kept, and says which one it is. -/
structure Validates {β : Type} (slots : List (Slot Float)) (made : Answer Float β)
    (kept : β → List (String × Datum Float)) : Prop where
  keeps : ∀ b, made = .ok b →
    List.Forall₂ (fun slot entry => entry.1 = slot.name ∧ slot.Keeps entry.2) slots (kept b)
  refuses : ∀ e, made = .error e → ∃ pre slot post, slots = pre ++ slot :: post ∧
    (∀ s ∈ pre, ∃ d, s.Keeps d) ∧ (∀ d, ¬ slot.Keeps d) ∧ slot.Refuses e

theorem validates_of_entries {β : Type} {slots : List (Slot Float)} {made : Answer Float β}
    {kept : β → List (String × Datum Float)} (h : made.map kept = slots.mapM Slot.entry) :
    Validates slots made kept := by
  constructor
  · intro b hb
    have hentries : slots.mapM Slot.entry = .ok (kept b) := by rw [← h, hb]; rfl
    refine (forall₂_of_mapM hentries).imp fun slot entry hentry => ?_
    obtain ⟨d, hd, rfl⟩ := map_eq_ok_iff.mp hentry
    exact ⟨rfl, Slot.check_eq_ok_iff.mp hd⟩
  · intro e he
    have hentries : slots.mapM Slot.entry = .error e := by rw [← h, he]; rfl
    obtain ⟨pre, slot, post, hslots, hpre, hslot⟩ := first_of_mapM hentries
    have hcheck := map_eq_error_iff.mp hslot
    refine ⟨pre, slot, post, hslots, fun s hs => ?_, fun d hkeeps => ?_, Slot.check_error hcheck⟩
    · obtain ⟨entry, hentry⟩ := hpre s hs
      obtain ⟨d, hd, -⟩ := map_eq_ok_iff.mp hentry
      exact ⟨d, Slot.check_eq_ok_iff.mp hd⟩
    · cases hcheck.symm.trans (Slot.check_eq_ok_iff.mpr hkeeps)

def Check.limits {α : Type} : Check ε α → List (String × Datum α)
  | .cap n => [("max_iterations", .whole n)]
  | .gradientNorm t | .change t => [("threshold", .real t)]
  | .elapsed t _ => [("seconds", .real t)]
  | .flag .. | .custom .. | .value _ => []

section Constructors
variable {α : Type} [Scalar α]

theorem constant_entries (length : Datum α) :
    (Stepsize.makeConstant length : Answer α (Stepsize ε α)).map Stepsize.parameters =
      [Slot.number "length" .nonnegative length].mapM Slot.entry := by
  unfold Stepsize.makeConstant
  simp only [List.mapM_cons, List.mapM_nil, Slot.entry, Slot.check]
  rcases Parameter.number "length" .nonnegative length with e | x
  · rfl
  · rfl

theorem decreasing_entries (length factor subtrahend exponent : Datum α) :
    (Stepsize.makeDecreasing length factor subtrahend exponent : Answer α (Stepsize ε α)).map
        Stepsize.parameters =
      [Slot.number "length" .positive length, .number "factor" .positive factor,
        .number "subtrahend" .nonnegative subtrahend,
        .number "exponent" .nonnegative exponent].mapM Slot.entry := by
  unfold Stepsize.makeDecreasing Schedule.make
  simp only [List.mapM_cons, List.mapM_nil, Slot.entry, Slot.check]
  rcases Parameter.number "length" .positive length with e | l
  · rfl
  rcases Parameter.number "factor" .positive factor with e | f
  · rfl
  rcases Parameter.number "subtrahend" .nonnegative subtrahend with e | c
  · rfl
  rcases Parameter.number "exponent" .nonnegative exponent with e | x
  · rfl
  · rfl

theorem armijo_entries {initial contraction decrease budget : Datum α}
    {choice : RetractionChoice ε α} {move : Retraction ε α} (h : choice.resolve = .ok move) :
    (Stepsize.makeArmijo initial choice contraction decrease budget).map Stepsize.parameters =
      [Slot.number "initial_stepsize" .positive initial,
        .number "contraction_factor" .belowOne contraction,
        .number "sufficient_decrease" .belowOne decrease, .budget budget].mapM Slot.entry := by
  unfold Stepsize.makeArmijo Armijo.make
  simp only [List.mapM_cons, List.mapM_nil, Slot.entry, Slot.check, h]
  rcases Parameter.number "initial_stepsize" .positive initial with e | i
  · rfl
  rcases Parameter.number "contraction_factor" .belowOne contraction with e | c
  · rfl
  rcases Parameter.number "sufficient_decrease" .belowOne decrease with e | d
  · rfl
  rcases Parameter.budget budget with e | b
  · rfl
  · rfl

theorem cap_entries (iterations : Datum α) :
    (Check.makeCap iterations : Answer α (Check ε α)).map Check.limits =
      [Slot.cap iterations].mapM Slot.entry := by
  unfold Check.makeCap
  simp only [List.mapM_cons, List.mapM_nil, Slot.entry, Slot.check]
  rcases Parameter.cap iterations with e | n
  · rfl
  · rfl

theorem threshold_entries {make : α → Check ε α} {name : String} (given : Datum α)
    (h : ∀ t, (make t).limits = [(name, .real t)]) :
    ((Parameter.threshold name given).map make).map Check.limits =
      [Slot.threshold name given].mapM Slot.entry := by
  simp only [List.mapM_cons, List.mapM_nil, Slot.entry, Slot.check]
  rcases Parameter.threshold name given with e | t
  · rfl
  · exact congrArg Except.ok (h t)

end Constructors

/-- The law of validation. Whatever values are given, a constructor keeps all of them as the parameters
are documented, or it fails at the first one for which that is impossible. It names the parameter then
and hands the value back, unless the value is a whole number beyond all doubles. Whole numbers of any
length have a text here, alone and in lists: a bound on the digits that may be written is not part of
it. -/
theorem validation_law :
    (∀ length, Validates [.number "length" .nonnegative length]
      (Stepsize.makeConstant length : Answer Float (Stepsize ε Float)) Stepsize.parameters) ∧
    (∀ length factor subtrahend exponent, Validates [.number "length" .positive length,
        .number "factor" .positive factor, .number "subtrahend" .nonnegative subtrahend,
        .number "exponent" .nonnegative exponent]
      (Stepsize.makeDecreasing length factor subtrahend exponent : Answer Float (Stepsize ε Float))
      Stepsize.parameters) ∧
    (∀ initial contraction decrease budget, ∀ choice : RetractionChoice ε Float, ∀ move,
      choice.resolve = .ok move → Validates [.number "initial_stepsize" .positive initial,
        .number "contraction_factor" .belowOne contraction,
        .number "sufficient_decrease" .belowOne decrease, .budget budget]
      (Stepsize.makeArmijo initial choice contraction decrease budget) Stepsize.parameters) ∧
    (∀ iterations, Validates [.cap iterations]
      (Check.makeCap iterations : Answer Float (Check ε Float)) Check.limits) ∧
    (∀ threshold, Validates [.threshold "threshold" threshold]
      (Check.makeGradientNorm threshold : Answer Float (Check ε Float)) Check.limits) ∧
    (∀ threshold, Validates [.threshold "threshold" threshold]
      (Check.makeChange threshold : Answer Float (Check ε Float)) Check.limits) ∧
    ∀ seconds, ∀ clock : ε → Float, Validates [.threshold "seconds" seconds]
      (Check.makeElapsed clock seconds) Check.limits := by
  refine ⟨fun length => ?_, fun length factor subtrahend exponent => ?_,
    fun initial contraction decrease budget choice move h => ?_, fun iterations => ?_,
    fun threshold => ?_, fun threshold => ?_, fun seconds clock => ?_⟩
  · exact validates_of_entries (constant_entries length)
  · exact validates_of_entries (decreasing_entries length factor subtrahend exponent)
  · exact validates_of_entries (armijo_entries h)
  · exact validates_of_entries (cap_entries iterations)
  · exact validates_of_entries (threshold_entries threshold fun _ => rfl)
  · exact validates_of_entries (threshold_entries threshold fun _ => rfl)
  · exact validates_of_entries (threshold_entries seconds fun _ => rfl)

def careless : List (Slot Float) :=
  [.number "initial_stepsize" .positive (.real 1), .number "contraction_factor" .belowOne (.real 0.5),
    .number "sufficient_decrease" .belowOne (.truth true), .budget .none]

theorem validation_law_careless : ∃ pre slot post,
    careless = pre ++ slot :: post ∧ (∀ s ∈ pre, ∃ d, s.Keeps d) ∧ (∀ d, ¬ slot.Keeps d) ∧
      slot.Refuses (.misuse (.notFinite "sufficient_decrease" (.truth true))) := by
  have fails : (Stepsize.makeArmijo (.real 1) .standard (.real 0.5) (.truth true) .none :
      Answer Float (Stepsize Unit Float)) =
        .error (.misuse (.notFinite "sufficient_decrease" (.truth true))) := rfl
  obtain ⟨-, -, searches, -⟩ := @validation_law Unit
  have validates := searches (.real 1) (.real 0.5) (.truth true) .none .standard _
    RetractionChoice.resolve_standard
  exact validates.refuses _ fails

/-- Doubles end below the four hundredth power of ten. -/
theorem not_named_when_too_large :
    (Stepsize.makeConstant (.whole (10 ^ 400)) : Answer Float (Stepsize Unit Float)) =
      .error (.refused .tooLarge) := by
  have beyond : (Scalar.ofInt? (10 ^ 400) : Option Float) = none := by decide +kernel
  rw [Stepsize.makeConstant, Parameter.number, beyond]
  rfl

end Geodescent
