import Mathlib.Analysis.SpecialFunctions.Pow.Real
import Mathlib.Analysis.SpecialFunctions.Trigonometric.Inverse
import Geodescent.Stepsize.Basic

/-! Exact arithmetic: the real numbers as scalars, and the harmonic schedule in them. -/
namespace Geodescent
open scoped Classical in
/-- Real numbers. None of them is too large, and nothing is rounded; they have no text. -/
noncomputable instance : Scalar ℝ where
  ofInt n := n
  ofDecimal d := (if d.negative then -1 else 1) * d.digits * (10 : ℝ) ^ d.exponent
  nan := 0
  infinity := 0
  sqrt := Real.sqrt
  sin := Real.sin
  cos := Real.cos
  arcsin := Real.arcsin
  pow x y := x ^ y
  flush x := x
  lt x y := decide (x < y)
  le x y := decide (x ≤ y)
  eq x y := decide (x = y)
  isFinite _ := true
  isNaN _ := false
  expansion _ := .nan

theorem Scalar.magnitude_eq_abs (x : ℝ) : Scalar.magnitude x = |x| := by
  have hmagnitude : Scalar.magnitude x = if x < 0 then -x else if x = 0 then 0 else x := by
    unfold Scalar.magnitude Scalar.lt Scalar.eq
    simp only [instScalarReal, decide_eq_true_eq]
  rw [hmagnitude]
  split
  · exact (abs_of_neg ‹_›).symm
  · split
    · rw [‹x = 0›, abs_zero]
    · exact (abs_of_nonneg (not_lt.mp ‹_›)).symm

namespace Schedule

theorem toReal_whole (k : Int) : (Number.whole k : Number ℝ).toReal = .ok (k : ℝ) := rfl

theorem power_real (x y : ℝ) : Number.power x y = .ok (x ^ y) := rfl

theorem lengthAt_harmonic (l : ℝ) (k : Nat) :
    (⟨l, 1, 0, 1⟩ : Schedule ℝ).lengthAt (.whole k) = .ok (l / k) := by
  have hformula : (l - ((k : Int) : ℝ) * 0) * 1 ^ ((k : Int) : ℝ) / ((k : Int) : ℝ) ^ (1 : ℝ) =
      l / k := by
    simp
  unfold lengthAt lengthWith
  rw [toReal_whole, ← hformula]
  simp only [power_real, bind, Except.bind]

theorem value_harmonic (l : ℝ) {k : Nat} (hk : 1 ≤ k) :
    (⟨l, 1, 0, 1⟩ : Schedule ℝ).value (.whole k) = .ok (.real (l / k)) := by
  have hlt : (Number.whole k : Number ℝ).lt (.whole 1) = false := by
    simp only [Number.lt, decide_eq_false_iff_not]
    omega
  have hcompared : (Datum.whole k : Datum ℝ).compared = .ok (.whole k) := Datum.compared_whole k
  unfold value
  simp only [hcompared, hlt, lengthAt_harmonic, bind, Except.bind, Except.map, Bool.false_eq_true,
    if_false]

end Schedule
end Geodescent
