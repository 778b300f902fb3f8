import Mathlib
import Geodescent.Manifold.Sphere
import Geodescent.Proofs.Flat.Space

/-! Great circles in exact arithmetic. Following one from a point and asking for the way to where it
leads are inverse to each other, up to the antipode of the point, and the distance is the length of the
way: `circle_law`. -/
namespace Geodescent

namespace GreatCircle

section Geometry
variable {E : Type} [NormedAddCommGroup E] [InnerProductSpace ℝ E] {x y v : E}
open InnerProductGeometry (angle)

/-- Where the great circle from `x` in direction `v` leads. -/
noncomputable def reached (x v : E) : E :=
  Real.cos ‖v‖ • x + ‖v‖⁻¹ • Real.sin ‖v‖ • v

noncomputable def beside (x y : E) : E := y - inner ℝ x y • x

/-- The direction of the great circle from `x` to `y`, as long as the arc between them. -/
noncomputable def direction (x y : E) : E := ‖beside x y‖⁻¹ • angle x y • beside x y

theorem inner_self_of_unit (hx : ‖x‖ = 1) : inner ℝ x x = 1 := by
  rw [real_inner_self_eq_norm_sq, hx, one_pow]

theorem inner_beside (hx : ‖x‖ = 1) : inner ℝ x (beside x y) = 0 := by
  rw [beside, inner_sub_right, real_inner_smul_right, inner_self_of_unit hx, mul_one, sub_self]

theorem beside_sub (hx : ‖x‖ = 1) : beside x (y - x) = beside x y := by
  rw [beside, inner_sub_right, inner_self_of_unit hx, beside, sub_smul, one_smul]
  abel

theorem norm_beside (hx : ‖x‖ = 1) (hy : ‖y‖ = 1) : ‖beside x y‖ = Real.sin (angle x y) := by
  have hcos : inner ℝ x y = Real.cos (angle x y) :=
    InnerProductGeometry.inner_eq_cos_angle_of_norm_eq_one hx hy
  have hsquare : ‖beside x y‖ ^ 2 = Real.sin (angle x y) ^ 2 := by
    have hself : inner ℝ (beside x y) (beside x y) = inner ℝ y (beside x y) := by
      nth_rewrite 1 [beside]
      rw [inner_sub_left, real_inner_smul_left, inner_beside hx, mul_zero, sub_zero]
    rw [← real_inner_self_eq_norm_sq, hself, beside, inner_sub_right, real_inner_smul_right,
      inner_self_of_unit hy, real_inner_comm x y, hcos, Real.sin_sq]
    ring
  exact (sq_eq_sq₀ (norm_nonneg _) (InnerProductGeometry.sin_angle_nonneg x y)).mp hsquare

theorem half_chord (hx : ‖x‖ = 1) (hy : ‖y‖ = 1) : ‖x - y‖ / 2 = Real.sin (angle x y / 2) := by
  have hcos : inner ℝ x y = Real.cos (angle x y) :=
    InnerProductGeometry.inner_eq_cos_angle_of_norm_eq_one hx hy
  have hsine : 0 ≤ Real.sin (angle x y / 2) := by
    refine Real.sin_nonneg_of_nonneg_of_le_pi ?_ ?_
    · linarith [InnerProductGeometry.angle_nonneg x y]
    · linarith [InnerProductGeometry.angle_le_pi x y, Real.pi_pos]
  have hsquare : (‖x - y‖ / 2) ^ 2 = Real.sin (angle x y / 2) ^ 2 := by
    rw [div_pow, norm_sub_sq_real, hx, hy, hcos, Real.sin_sq_eq_half_sub, mul_div_cancel₀ _ two_ne_zero]
    ring
  exact (sq_eq_sq₀ (by positivity) hsine).mp hsquare

theorem arcsin_half_chord (hx : ‖x‖ = 1) (hy : ‖y‖ = 1) :
    2 * Real.arcsin (‖x - y‖ / 2) = angle x y := by
  have hnonneg := InnerProductGeometry.angle_nonneg x y
  have hpi := InnerProductGeometry.angle_le_pi x y
  rw [half_chord hx hy, Real.arcsin_sin (by linarith [Real.pi_pos]) (by linarith)]
  ring

section Reached
variable (hx : ‖x‖ = 1) (hv : inner ℝ x v = 0)
include hx hv

theorem inner_reached : inner ℝ x (reached x v) = Real.cos ‖v‖ := by
  rw [reached, inner_add_right, real_inner_smul_right, real_inner_smul_right, real_inner_smul_right,
    inner_self_of_unit hx, hv]
  ring

theorem norm_reached (hpos : 0 < ‖v‖) : ‖reached x v‖ = 1 := by
  have horthogonal : inner ℝ (Real.cos ‖v‖ • x) (‖v‖⁻¹ • Real.sin ‖v‖ • v) = 0 := by
    rw [real_inner_smul_left, real_inner_smul_right, real_inner_smul_right, hv]
    ring
  have hsquare : ‖reached x v‖ ^ 2 = 1 := by
    rw [reached, norm_add_sq_real, horthogonal, norm_smul, norm_smul, norm_smul, hx, norm_inv,
      norm_norm, Real.norm_eq_abs, Real.norm_eq_abs, mul_comm |Real.sin ‖v‖|,
      inv_mul_cancel_left₀ hpos.ne', mul_one, sq_abs, sq_abs, mul_zero, add_zero,
      Real.cos_sq_add_sin_sq]
  exact (pow_eq_one_iff_of_nonneg (norm_nonneg _) two_ne_zero).mp hsquare

theorem angle_reached (hpos : 0 < ‖v‖) (hpi : ‖v‖ ≤ Real.pi) : angle x (reached x v) = ‖v‖ := by
  have hcos : Real.cos (angle x (reached x v)) = Real.cos ‖v‖ := by
    rw [← InnerProductGeometry.inner_eq_cos_angle_of_norm_eq_one hx (norm_reached hx hv hpos),
      inner_reached hx hv]
  exact Real.injOn_cos ⟨InnerProductGeometry.angle_nonneg _ _, InnerProductGeometry.angle_le_pi _ _⟩
    ⟨hpos.le, hpi⟩ hcos

theorem direction_reached (hpos : 0 < ‖v‖) (hpi : ‖v‖ < Real.pi) : direction x (reached x v) = v := by
  have hsine : Real.sin ‖v‖ ≠ 0 := (Real.sin_pos_of_pos_of_lt_pi hpos hpi).ne'
  have hbeside : beside x (reached x v) = ‖v‖⁻¹ • Real.sin ‖v‖ • v := by
    rw [beside, inner_reached hx hv, reached, add_sub_cancel_left]
  have hnorm : ‖beside x (reached x v)‖ = Real.sin ‖v‖ := by
    rw [norm_beside hx (norm_reached hx hv hpos), angle_reached hx hv hpos hpi.le]
  rw [direction, hnorm, angle_reached hx hv hpos hpi.le, hbeside, smul_smul ‖v‖,
    mul_inv_cancel₀ hpos.ne', one_smul, smul_smul, inv_mul_cancel₀ hsine, one_smul]

end Reached

section Direction

theorem inner_direction (hx : ‖x‖ = 1) : inner ℝ x (direction x y) = 0 := by
  rw [direction, real_inner_smul_right, real_inner_smul_right, inner_beside hx, mul_zero, mul_zero]

theorem norm_direction (apart : 0 < ‖beside x y‖) : ‖direction x y‖ = angle x y := by
  rw [direction, norm_smul, norm_smul, norm_inv, norm_norm,
    Real.norm_of_nonneg (InnerProductGeometry.angle_nonneg x y), mul_comm (angle x y),
    inv_mul_cancel_left₀ apart.ne']

variable (hx : ‖x‖ = 1) (hy : ‖y‖ = 1) (apart : 0 < ‖beside x y‖)
include hx hy apart

theorem norm_beside_lt : ‖beside x y‖ < angle x y := by
  have hsine := norm_beside hx hy
  have hpos : 0 < angle x y := by
    refine (InnerProductGeometry.angle_nonneg x y).lt_of_ne' fun hzero => ?_
    rw [hsine, hzero, Real.sin_zero] at apart
    exact lt_irrefl 0 apart
  rw [hsine]
  exact Real.sin_lt hpos

theorem reached_direction : reached x (direction x y) = y := by
  have hpos : 0 < angle x y := apart.trans (norm_beside_lt hx hy apart)
  have hcos : inner ℝ x y = Real.cos (angle x y) :=
    InnerProductGeometry.inner_eq_cos_angle_of_norm_eq_one hx hy
  have haside : (angle x y)⁻¹ • Real.sin (angle x y) • direction x y = beside x y := by
    rw [direction, ← norm_beside hx hy, smul_inv_smul₀ apart.ne', inv_smul_smul₀ hpos.ne']
  rw [reached, norm_direction apart, haside, ← hcos, beside, add_sub_cancel]

end Direction

end Geometry

section Operations
open Flat (point)
open InnerProductGeometry (angle)
variable {n : Nat} {x y v : Space n}

theorem maximum_eq_max (r s : ℝ) : Scalar.maximum r s = max r s := by
  have hmaximum : Scalar.maximum r s = if r < s then s else r := by
    simp only [Scalar.maximum, Scalar.isNaN, Scalar.lt, decide_eq_true_eq, Bool.false_eq_true,
      if_false]
  rw [hmaximum, max_def_lt]

theorem minimum_eq_min (r s : ℝ) : Scalar.minimum r s = min r s := by
  have hminimum : Scalar.minimum r s = if s < r then s else r := by
    simp only [Scalar.minimum, Scalar.isNaN, Scalar.lt, decide_eq_true_eq, Bool.false_eq_true,
      if_false]
  rw [hminimum, min_comm, min_def_lt]

theorem epsilon_eq : (Defaults.epsilon : ℝ) = 10 ^ (-10 : Int) := by
  change (if false = true then (-1 : ℝ) else 1) * (1 : ℕ) * (10 : ℝ) ^ (-10 : Int) = _
  rw [if_neg Bool.false_ne_true, Nat.cast_one, one_mul, one_mul]

theorem epsilon_pos : (0 : ℝ) < Defaults.epsilon := by
  rw [epsilon_eq]
  positivity

theorem project_point (x v : Space n) :
    Manifold.Sphere.project (point x) (point v) = .ok (point (beside x v)) := by
  have hdot := Flat.dot_point x v
  unfold Manifold.Sphere.project
  rw [hdot]
  change ((Datum.single (inner ℝ x v)).mul (point x) >>= fun part => (point v).sub part) = _
  rw [Flat.scale_single]
  exact Flat.sub_point (Flat.holds_point _) v

theorem normalise_point (y : Space n) :
    Manifold.Sphere.normalise (point y) = .ok (point (‖y‖⁻¹ • y)) := by
  unfold Manifold.Sphere.normalise
  rw [Flat.norm_point]
  exact Flat.div_single ‖y‖ y

theorem normalise_unit (hy : ‖y‖ = 1) : Manifold.Sphere.normalise (point y) = .ok (point y) := by
  rw [normalise_point, hy, inv_one, one_smul]

theorem exp_point (hx : ‖x‖ = 1) (hv : inner ℝ x v = 0) (long : Defaults.epsilon ≤ ‖v‖) :
    Manifold.Sphere.exp (point x) (point v) = .ok (point (reached x v)) := by
  have hpos : 0 < ‖v‖ := epsilon_pos.trans_le long
  unfold Manifold.Sphere.exp
  simp only [Flat.norm_point, Flat.scale_single, Flat.div_single,
    Flat.add_point (Flat.holds_point _), maximum_eq_max, max_eq_left long, bind, Except.bind]
  exact normalise_unit (norm_reached hx hv hpos)

theorem dist_point (hx : ‖x‖ = 1) (hy : ‖y‖ = 1) :
    Manifold.Sphere.dist (point x) (point y) = .ok (angle x y) := by
  have hchord : Scalar.minimum (Scalar.maximum (Scalar.quotient ‖x - y‖ Scalar.two) 0) 1 =
      ‖x - y‖ / 2 := by
    have hhalf : Scalar.quotient ‖x - y‖ Scalar.two = ‖x - y‖ / 2 := by
      change ‖x - y‖ / ((2 : Int) : ℝ) = _
      rw [Int.cast_ofNat]
    have hone : ‖x - y‖ / 2 ≤ 1 := by
      rw [half_chord hx hy]
      exact Real.sin_le_one _
    rw [hhalf, maximum_eq_max, minimum_eq_min, max_eq_left (by positivity), min_eq_left hone]
  have hdouble (r : ℝ) : Scalar.times Scalar.two (Scalar.arcsin r) = 2 * Real.arcsin r := by
    change ((2 : Int) : ℝ) * Real.arcsin r = _
    rw [Int.cast_ofNat]
  unfold Manifold.Sphere.dist
  simp only [Flat.sub_point (Flat.holds_point y), Flat.norm_point, hchord, hdouble,
    arcsin_half_chord hx hy, bind, Except.bind]

theorem log_point (hx : ‖x‖ = 1) (hy : ‖y‖ = 1) (apart : Defaults.epsilon < ‖beside x y‖) :
    Manifold.Sphere.log (point x) (point y) = .ok (point (direction x y)) := by
  have hlt : Scalar.lt Defaults.epsilon ‖beside x y‖ = true := decide_eq_true_iff.mpr apart
  unfold Manifold.Sphere.log
  simp only [Flat.sub_point (Flat.holds_point x), project_point, beside_sub hx, Flat.norm_point,
    dist_point hx hy, Flat.scale_single, Flat.div_single, maximum_eq_max, max_eq_left apart.le, hlt,
    if_true, bind, Except.bind]
  rfl

theorem norm_point (k : Datum ℝ) (x v : Space n) :
    (Manifold.sphereOf k).norm (point x) (point v) = .ok ‖v‖ := by
  have hlength : Scalar.sqrt (Scalar.maximum 0 (inner ℝ v v)) = ‖v‖ := by
    rw [maximum_eq_max, max_eq_right real_inner_self_nonneg]
    exact (norm_eq_sqrt_real_inner v).symm
  have hinner : (Manifold.sphereOf k).inner (point x) (point v) (point v) =
      .ok (.single (inner ℝ v v)) := refusing_eq_ok_iff.mpr (Flat.dot_point v v)
  refine bind_eq_ok_iff.mpr ⟨_, hinner, ?_⟩
  rw [← hlength]
  rfl

/-- The law of great circles. A tangent vector at a point of the sphere that is neither too short nor
leads too near to the antipode comes back as the logarithm of the point it leads to, which is as far
away as the vector is long. A point that is neither too near nor too near to the antipode is where its
logarithm leads, and its distance is the length of the logarithm, from either side. -/
theorem circle_law {M : Manifold ℝ} {x : Space (n + 1)}
    (made : Manifold.sphere (.whole n) = .ok M) (hx : ‖x‖ = 1) :
    (∀ v : Space (n + 1), inner ℝ x v = 0 → Defaults.epsilon ≤ ‖v‖ → ‖v‖ < Real.pi →
      Defaults.epsilon < Real.sin ‖v‖ →
        ∃ y : Space (n + 1), M.exp (point x) (point v) = .ok (point y) ∧ ‖y‖ = 1 ∧
          M.dist (point x) (point y) = .ok ‖v‖ ∧ M.log (point x) (point y) = .ok (point v)) ∧
    (∀ y : Space (n + 1), ‖y‖ = 1 →
      ∃ w : Space (n + 1), M.project (point x) (point (y - x)) = .ok (point w) ∧
        (Defaults.epsilon < ‖w‖ →
          ∃ (v : Space (n + 1)) (arc : ℝ), M.log (point x) (point y) = .ok (point v) ∧
            M.exp (point x) (point v) = .ok (point y) ∧
            M.norm (point x) (point v) = .ok arc ∧ M.dist (point x) (point y) = .ok arc ∧
            M.dist (point y) (point x) = .ok arc)) := by
  obtain ⟨-, -, hmade⟩ := bind_eq_ok_iff.mp made
  cases hmade
  refine ⟨fun v hv long hpi hsine => ?_, fun y hy => ?_⟩
  · have hpos : 0 < ‖v‖ := epsilon_pos.trans_le long
    have hunit : ‖reached x v‖ = 1 := norm_reached hx hv hpos
    have hangle : angle x (reached x v) = ‖v‖ := angle_reached hx hv hpos hpi.le
    have apart : Defaults.epsilon < ‖beside x (reached x v)‖ := by
      rw [norm_beside hx hunit, hangle]
      exact hsine
    refine ⟨reached x v, refusing_eq_ok_iff.mpr (exp_point hx hv long), hunit, ?_, ?_⟩
    · refine refusing_eq_ok_iff.mpr ?_
      rw [dist_point hx hunit, hangle]
    · refine refusing_eq_ok_iff.mpr ?_
      rw [log_point hx hunit apart, direction_reached hx hv hpos hpi]
  · have hproject : Manifold.Sphere.project (point x) (point (y - x)) =
        .ok (point (beside x y)) := by
      rw [project_point, beside_sub hx]
    refine ⟨beside x y, refusing_eq_ok_iff.mpr hproject, fun apart => ?_⟩
    have hpos : 0 < ‖beside x y‖ := epsilon_pos.trans apart
    have harc : ‖direction x y‖ = angle x y := norm_direction hpos
    have long : Defaults.epsilon ≤ ‖direction x y‖ := by
      rw [harc]
      exact (apart.trans (norm_beside_lt hx hy hpos)).le
    refine ⟨direction x y, angle x y, refusing_eq_ok_iff.mpr (log_point hx hy apart),
      refusing_eq_ok_iff.mpr ?_, ?_, refusing_eq_ok_iff.mpr (dist_point hx hy),
      refusing_eq_ok_iff.mpr ?_⟩
    · rw [exp_point hx (inner_direction hx) long, reached_direction hx hy hpos]
    · rw [norm_point, harc]
    · rw [dist_point hy hx, InnerProductGeometry.angle_comm]

theorem circle_law_quarter : ∃ (M : Manifold ℝ) (y v : Space 3) (arc : ℝ),
    Manifold.sphere (.whole 2) = .ok M ∧
      M.exp (point (EuclideanSpace.single 0 1 : Space 3))
        (point (EuclideanSpace.single 1 (Real.pi / 2) : Space 3)) = .ok (point y) ∧
      M.dist (point (EuclideanSpace.single 0 1 : Space 3)) (point y) = .ok (Real.pi / 2) ∧
      M.log (point (EuclideanSpace.single 0 1 : Space 3)) (point y) =
        .ok (point (EuclideanSpace.single 1 (Real.pi / 2) : Space 3)) ∧
      M.log (point (EuclideanSpace.single 0 1 : Space 3))
        (point (EuclideanSpace.single 1 1 : Space 3)) = .ok (point v) ∧
      M.exp (point (EuclideanSpace.single 0 1 : Space 3)) (point v) =
        .ok (point (EuclideanSpace.single 1 1 : Space 3)) ∧
      M.norm (point (EuclideanSpace.single 0 1 : Space 3)) (point v) = .ok arc := by
  have hunit (i : Fin 3) : ‖(EuclideanSpace.single i 1 : Space 3)‖ = 1 := by
    rw [PiLp.norm_single, norm_one]
  have hlength : ‖(EuclideanSpace.single 1 (Real.pi / 2) : Space 3)‖ = Real.pi / 2 := by
    rw [PiLp.norm_single, Real.norm_of_nonneg (by positivity)]
  have horthogonal (r : ℝ) : inner ℝ (EuclideanSpace.single 0 1 : Space 3)
      (EuclideanSpace.single 1 r) = 0 := by
    rw [EuclideanSpace.inner_single_left]
    simp
  have hshort : (Defaults.epsilon : ℝ) < 1 := by
    rw [epsilon_eq]
    norm_num
  have hpi := Real.pi_gt_three
  obtain ⟨there, back⟩ := circle_law (n := 2) (M := .sphereOf (.whole 2)) rfl (hunit 0)
  obtain ⟨y, hexp, -, hdist, hlog⟩ := there (EuclideanSpace.single 1 (Real.pi / 2))
    (horthogonal _) (by rw [hlength]; linarith) (by rw [hlength]; linarith)
    (by rw [hlength, Real.sin_pi_div_two]; exact hshort)
  obtain ⟨w, hproject, reaches⟩ := back (EuclideanSpace.single 1 1) (hunit 1)
  -- the two axes are orthogonal, so that all of the second one is left beside the first
  have hbeside : beside (EuclideanSpace.single 0 1 : Space 3)
      (EuclideanSpace.single 1 1 - EuclideanSpace.single 0 1) = EuclideanSpace.single 1 1 := by
    rw [beside_sub (hunit 0), beside, horthogonal, zero_smul, sub_zero]
  have hw : ‖w‖ = 1 := by
    have hpart : Manifold.Sphere.project (point (EuclideanSpace.single 0 1 : Space 3))
        (point (EuclideanSpace.single 1 1 - EuclideanSpace.single 0 1 : Space 3)) =
          .ok (point w) :=
      refusing_eq_ok_iff.mp hproject
    rw [project_point, hbeside] at hpart
    have hnorm : (point w).norm = .ok 1 := by
      rw [← Except.ok.inj hpart, Flat.norm_point, hunit 1]
    rw [Flat.norm_point] at hnorm
    exact Except.ok.inj hnorm
  obtain ⟨v, arc, hlog', hexp', hnorm, -, -⟩ := reaches (by rw [hw]; exact hshort)
  rw [hlength] at hdist
  exact ⟨_, y, v, arc, rfl, hexp, hdist, hlog, hlog', hexp', hnorm⟩

end Operations

end GreatCircle
end Geodescent
