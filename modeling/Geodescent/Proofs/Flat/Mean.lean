import Mathlib
import Geodescent.Distance
import Geodescent.Proofs.Flat.Space

/-! The centre of mass of data in flat space. The cost and the gradient that are made from distances
and logarithms belong together, and the mean is the only point where the cost is least:
`gradient_law`. -/
namespace Geodescent

/-- Data in flat space: at least one vector, and no more than a list can have. -/
structure Sample (n : Nat) where
  vectors : List (Space n)
  nonempty : vectors ≠ []
  size : fitsEntry (Int.ofNat vectors.length) = true

namespace Sample
variable {n : Nat} (data : Sample n)

def points : List (Point ℝ) := data.vectors.map Flat.point

noncomputable def count : ℝ := data.vectors.length

noncomputable def mean : Space n := data.count⁻¹ • data.vectors.sum

noncomputable def energy (y : Space n) : ℝ :=
  (data.vectors.map fun d => ‖d - y‖ * ‖d - y‖).sum / (2 * data.count)

theorem count_pos : 0 < data.count :=
  Nat.cast_pos.mpr (List.length_pos_iff.mpr data.nonempty)

theorem points_nonempty (data : Sample n) : Distance.nonempty data.points = .ok () := by
  rw [Distance.nonempty, if_neg]
  rw [List.isEmpty_iff, points, List.map_eq_nil_iff]
  exact data.nonempty

section Sums
variable (y h : Space n) (vs : List (Space n))

theorem sum_sub : (vs.map (y - ·)).sum = (vs.length : ℝ) • y - vs.sum := by
  induction vs with
  | nil => simp
  | cons d vs ih =>
    rw [List.map_cons, List.sum_cons, ih, List.sum_cons, List.length_cons, Nat.cast_succ, add_smul,
      one_smul]
    abel

theorem sum_squares : (vs.map fun d => ‖d - (y + h)‖ * ‖d - (y + h)‖).sum =
    (vs.map fun d => ‖d - y‖ * ‖d - y‖).sum + 2 * inner ℝ (vs.map (y - ·)).sum h +
      vs.length * inner ℝ h h := by
  induction vs with
  | nil => simp
  | cons d vs ih =>
    have hterm : ‖d - (y + h)‖ * ‖d - (y + h)‖ =
        ‖d - y‖ * ‖d - y‖ + 2 * inner ℝ (y - d) h + inner ℝ h h := by
      have hmoved : d - (y + h) = d - y - h := (sub_sub d y h).symm
      have hflipped : inner ℝ (y - d) h = -inner ℝ (d - y) h := by
        rw [← neg_sub d y, inner_neg_left]
      rw [hmoved, norm_sub_mul_self_real, hflipped, real_inner_self_eq_norm_mul_norm]
      ring
    simp only [List.map_cons, List.sum_cons, ih, hterm, inner_add_left, List.length_cons,
      Nat.cast_succ]
    ring

end Sums

theorem mean_sub (y : Space n) :
    data.count⁻¹ • (data.vectors.map (y - ·)).sum = y - data.mean := by
  rw [sum_sub, smul_sub, smul_smul, ← count, inv_mul_cancel₀ data.count_pos.ne', one_smul, mean]

theorem energy_add (y h : Space n) :
    data.energy (y + h) = data.energy y + inner ℝ (y - data.mean) h + inner ℝ h h / 2 := by
  have hcount : data.count ≠ 0 := data.count_pos.ne'
  rw [energy, energy, sum_squares, ← count, ← mean_sub, real_inner_smul_left]
  field_simp

theorem energy_le_iff (y : Space n) :
    (∀ h, data.energy y ≤ data.energy (y + h)) ↔ y = data.mean := by
  constructor
  · intro hle
    have hdown := hle (-(y - data.mean))
    rw [energy_add, inner_neg_right, inner_neg_neg] at hdown
    have hnonneg := real_inner_self_nonneg (x := y - data.mean)
    have hzero : inner ℝ (y - data.mean) (y - data.mean) = 0 := by linarith
    exact sub_eq_zero.mp (inner_self_eq_zero.mp hzero)
  · rintro rfl h
    rw [energy_add, sub_self, inner_zero_left, add_zero]
    have hnonneg := real_inner_self_nonneg (x := h)
    linarith

section Oracles
variable {ε : Type} {k : Datum ℝ} {d : Datum ℝ} {x : Space n}

theorem total_map {term : Point ℝ → Answer ℝ ℝ} {f : Space n → ℝ}
    (h : ∀ v, term (Flat.point v) = .ok (f v)) (vs : List (Space n)) :
    Distance.total term (vs.map Flat.point) = .ok (vs.map f).sum := by
  have hfold (a : ℝ) : (vs.map Flat.point).foldlM
      (fun sum v => (term v).map (Scalar.plus sum)) a = .ok (a + (vs.map f).sum) := by
    induction vs generalizing a with
    | nil => exact congrArg Except.ok (add_zero a).symm
    | cons v vs ih =>
      rw [List.map_cons, List.foldlM_cons, h]
      change (vs.map Flat.point).foldlM _ (a + f v) = _
      rw [ih, List.map_cons, List.sum_cons, add_assoc]
  exact (hfold 0).trans (congrArg Except.ok (zero_add _))

theorem totalPoint_map {term : Point ℝ → Answer ℝ (Point ℝ)} {f : Space n → Space n}
    (h : ∀ v, term (Flat.point v) = .ok (Flat.point (f v))) {vs : List (Space n)} (hvs : vs ≠ []) :
    Distance.totalPoint term (vs.map Flat.point) = .ok (Flat.point (vs.map f).sum) := by
  have hfold (vs : List (Space n)) (a : Space n) : (vs.map Flat.point).foldlM
      (fun sum v => do
        let g ← term v
        refusing (sum.add g)) (Flat.point a) = .ok (Flat.point (a + (vs.map f).sum)) := by
    induction vs generalizing a with
    | nil => exact congrArg (Except.ok ∘ Flat.point) (add_zero a).symm
    | cons v vs ih =>
      rw [List.map_cons, List.foldlM_cons, h]
      change (refusing ((Flat.point a).add (Flat.point (f v))) >>= _) = _
      rw [Flat.add_point (Flat.holds_point a)]
      refine (ih (a + f v)).trans ?_
      rw [List.map_cons, List.sum_cons, add_assoc]
  -- the sum begins with a number, so that the first vector is a case of its own
  cases vs with
  | nil => exact absurd rfl hvs
  | cons v vs =>
    rw [Distance.totalPoint, List.map_cons, List.foldlM_cons, h]
    change (refusing ((Datum.whole 0).add (Flat.point (f v))) >>= _) = _
    rw [Flat.zero_add_point]
    exact hfold vs (f v)

theorem meanSquared_eq (hd : Flat.Holds d x) :
    Distance.meanSquared data.points (.euclideanOf k) d = .ok (data.energy x) := by
  have hterm (v : Space n) : ((Manifold.euclideanOf k).dist d (Flat.point v)).map
      (fun r => Scalar.times r r) = .ok (‖v - x‖ * ‖v - x‖) := by
    rw [Flat.dist_point k hd]
    rfl
  have hweight : (Scalar.ofInt (2 * Int.ofNat data.points.length) : ℝ) = 2 * data.count := by
    change ((2 * Int.ofNat data.points.length : Int) : ℝ) = _
    rw [points, List.length_map, count, Int.cast_mul, Int.cast_ofNat, Int.ofNat_eq_natCast,
      Int.cast_natCast]
  rw [Distance.meanSquared, hweight, points, total_map hterm]
  rfl

theorem gradient_eq (hd : Flat.Holds d x) (v : Space n) :
    Distance.gradient (.euclideanOf k) (Flat.point v) d (.whole 2) = .ok (Flat.point (x - v)) := by
  rw [Distance.gradient, Flat.log_point k hd, ← neg_sub v x]
  exact refusing_eq_ok_iff.mpr (Flat.neg_point (v - x))

theorem meanSquaredGradient_eq (hd : Flat.Holds d x) :
    Distance.meanSquaredGradient data.points (.euclideanOf k) d =
      .ok (Flat.point (x - data.mean)) := by
  have hlength : Int.ofNat data.points.length = Int.ofNat data.vectors.length := by
    rw [points, List.length_map]
  have hsum : Distance.totalPoint
      (fun v => Distance.gradient (.euclideanOf k) v d (.whole 2)) data.points =
      .ok (Flat.point (data.vectors.map (x - ·)).sum) :=
    totalPoint_map (gradient_eq hd) data.nonempty
  rw [Distance.meanSquaredGradient, hlength]
  refine bind_eq_ok_iff.mpr ⟨_, hsum, refusing_eq_ok_iff.mpr ?_⟩
  rw [Flat.div_point data.size, ← mean_sub, count, Int.ofNat_eq_natCast, Int.cast_natCast]

theorem cost_eq (data : Sample n) : Distance.meanSquaredCost data.points =
    .ok fun M y => (settled (Distance.meanSquared data.points M y) : Asking ε ℝ ℝ) := by
  rw [Distance.meanSquaredCost, data.points_nonempty]
  rfl

theorem gradientOracle_eq (data : Sample n) : Distance.meanSquaredGradientOracle data.points =
    .ok fun M y => (settled (Distance.meanSquaredGradient data.points M y) :
      Asking ε ℝ (Point ℝ)) := by
  rw [Distance.meanSquaredGradientOracle, data.points_nonempty]
  rfl

end Oracles

/-- The law of the gradient. On data in flat space both oracles are made and always answer, and the
answers of one are the gradient of the other for the metric of the manifold. The gradient is zero where
the cost is least and nowhere else, which is at the mean. -/
theorem gradient_law {ε : Type} {M : Manifold ℝ} (made : Manifold.euclidean (.whole n) = .ok M) :
    ∃ (F : Cost ε ℝ) (G : Gradient ε ℝ),
      Distance.meanSquaredCost data.points = .ok F ∧
      Distance.meanSquaredGradientOracle data.points = .ok G ∧
      ∃ (f : Space n → ℝ) (g : Space n → Space n),
        (∀ d y env, Flat.Holds d y → F M d env = .ok (f y) env ∧
          G M d env = .ok (Flat.point (g y)) env) ∧
        (∀ y h, ∃ a b, M.exp (Flat.point y) (Flat.point h) = .ok (Flat.point (y + h)) ∧
          M.inner (Flat.point y) (Flat.point (g y)) (Flat.point h) = .ok (.single a) ∧
          M.inner (Flat.point y) (Flat.point h) (Flat.point h) = .ok (.single b) ∧
          f (y + h) = f y + a + b / 2) ∧
        (∀ y, (∀ h, f y ≤ f (y + h)) ↔ g y = 0) ∧ ∀ y, g y = 0 ↔ y = data.mean := by
  obtain ⟨-, -, hmade⟩ := bind_eq_ok_iff.mp made
  cases hmade
  refine ⟨_, _, data.cost_eq, data.gradientOracle_eq, data.energy, (· - data.mean), fun d y env hd => ?_,
    fun y h => ?_, fun y => ?_, fun y => sub_eq_zero⟩
  · rw [data.meanSquared_eq hd, data.meanSquaredGradient_eq hd]
    exact ⟨rfl, rfl⟩
  · exact ⟨_, _, Flat.exp_point _ (Flat.holds_point y) h, Flat.inner_point _ _ h,
      Flat.inner_point _ h h, data.energy_add y h⟩
  · rw [data.energy_le_iff, sub_eq_zero]

noncomputable def corners : Sample 2 where
  vectors := [0, !₂[4, 2]]
  nonempty := List.cons_ne_nil _ _
  size := rfl

theorem mean_corners : corners.mean = !₂[2, 1] := by
  have hcount : corners.count = 2 := by norm_num [count, corners]
  have hsum : corners.vectors.sum = !₂[4, 2] := by simp [corners]
  rw [mean, hcount, hsum]
  ext i
  fin_cases i <;> norm_num

theorem gradient_law_corners : ∃ (M : Manifold ℝ) (F : Cost Unit ℝ) (f : Space 2 → ℝ),
    Manifold.euclidean (.whole 2) = .ok M ∧ Distance.meanSquaredCost corners.points = .ok F ∧
    (∀ y, F M (Flat.point y) () = .ok (f y) ()) ∧
    ∀ y, (∀ h, f y ≤ f (y + h)) ↔ y = !₂[2, 1] := by
  obtain ⟨F, G, hF, -, f, g, hvalues, -, hleast, hmean⟩ :=
    corners.gradient_law (ε := Unit) (M := .euclideanOf (.whole 2)) rfl
  refine ⟨_, F, f, rfl, hF, fun y => (hvalues _ y () (Flat.holds_point y)).1, fun y => ?_⟩
  rw [hleast, hmean, mean_corners]

end Sample
end Geodescent
