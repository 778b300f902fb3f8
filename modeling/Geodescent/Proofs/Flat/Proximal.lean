import Mathlib
import Geodescent.Distance
import Geodescent.Proofs.Flat.Space

/-! Proximal maps of the distance in flat space. The map moves along the segment to its centre, as far
as the slope of the distance balances the way that has been gone, and the point it reaches is the only
one where the sum of both costs is least: `proximal_law`. -/
namespace Geodescent

namespace Number

noncomputable def value : Number ℝ → ℝ
  | .whole k => k
  | .real r => r

/-- Whole numbers that scalars hold without rounding, and all scalars. -/
def Exact : Number ℝ → Prop
  | .whole k => isExact k = true
  | .real _ => True

theorem orderOf_iff {k : Int} (h : isExact k = true) (r : ℝ) :
    (orderOf k r = some .lt ↔ (k : ℝ) < r) ∧ (orderOf k r = some .eq ↔ (k : ℝ) = r) ∧
      (orderOf k r = some .gt ↔ r < k) := by
  have horder : orderOf k r = if (k : ℝ) < r then some .lt else if r < k then some .gt
      else if (k : ℝ) = r then some .eq else none := by
    unfold orderOf
    rw [if_pos h]
    simp only [Scalar.lt, Scalar.eq, Scalar.ofInt, decide_eq_true_eq]
  rw [horder]
  rcases lt_trichotomy (k : ℝ) r with hlt | heq | hgt
  · simp [hlt, hlt.ne, hlt.not_gt]
  · simp [heq]
  · simp [hgt, hgt.ne', hgt.not_gt]

theorem eq_whole_iff {k : Int} (h : isExact k = true) (ν : Number ℝ) :
    ν.eq (.whole k) = true ↔ ν.value = k := by
  cases ν with
  | whole n => exact decide_eq_true_iff.trans Int.cast_inj.symm
  | real r => exact decide_eq_true_iff.trans ((orderOf_iff h r).2.1.trans eq_comm)

theorem le_whole_iff {k : Int} (h : isExact k = true) (ν : Number ℝ) :
    ν.le (.whole k) = true ↔ ν.value ≤ k := by
  cases ν with
  | whole n => exact decide_eq_true_iff.trans Int.cast_le.symm
  | real r =>
    obtain ⟨-, heq, hgt⟩ := orderOf_iff h r
    have hle : (Number.real r).le (.whole k) = true ↔ r < k ∨ (k : ℝ) = r := by
      rw [← heq, ← hgt]
      exact (Bool.or_eq_true _ _).to_iff.trans (or_congr decide_eq_true_iff decide_eq_true_iff)
    rw [hle, eq_comm, ← le_iff_lt_or_eq]
    rfl

theorem real_le_iff (r : ℝ) {ν : Number ℝ} (h : ν.Exact) :
    (Number.real r).le ν = true ↔ r ≤ ν.value := by
  cases ν with
  | whole k => exact le_whole_iff h (.real r)
  | real s => exact decide_eq_true_iff

end Number

theorem Datum.compared_of_number {a : Datum ℝ} {ν : Number ℝ} (h : a.number? = some ν) :
    a.compared = .ok ν := by
  cases a with
  | truth | whole | real =>
    cases h
    rfl
  | _ => cases h

namespace Flat

noncomputable def power (e : ℕ) (r : ℝ) : ℝ := r ^ e / e

theorem power_one (r : ℝ) : power 1 r = r := by simp [power]

theorem power_two (r : ℝ) : power 2 r = r ^ 2 / 2 := by simp [power]

theorem power_two_nonneg (r : ℝ) : 0 ≤ power 2 r := by
  rw [power_two]
  positivity

theorem power_two_pos {r : ℝ} (h : 0 < r) : 0 < power 2 r := by
  rw [power_two]
  positivity

/-- The part of the way to a centre at the distance `d` that a proximal map moves. -/
inductive Share (l d : ℝ) : ℕ → ℝ → Prop
  | square : Share l d 2 (l / (1 + l))
  | near (h : d ≤ l) : Share l d 1 1
  | far (h : l < d) : Share l d 1 (l / d)

namespace Share
variable {l d t : ℝ} {e : ℕ}

theorem nonneg (h : Share l d e t) (hl : 0 < l) : 0 ≤ t := by
  cases h with
  | square | near => positivity
  | far h => exact div_nonneg hl.le (hl.trans h).le

theorem le_one (h : Share l d e t) (hl : 0 < l) : t ≤ 1 := by
  cases h with
  | square => exact (div_le_one (by positivity)).mpr (by linarith)
  | near => exact le_refl 1
  | far h => exact (div_le_one (hl.trans h)).mpr h.le

theorem eq_one_iff (h : Share l d e t) (hl : 0 < l) : t = 1 ↔ e = 1 ∧ d ≤ l := by
  cases h with
  | square =>
    have hless : l / (1 + l) < 1 := (div_lt_one (by positivity)).mpr (by linarith)
    simp [hless.ne]
  | near h => simp [h]
  | far h =>
    have hless : l / d < 1 := (div_lt_one (hl.trans h)).mpr h
    simp [hless.ne, h]

end Share

section Slopes
variable {E : Type} [NormedAddCommGroup E] [InnerProductSpace ℝ E] {f x z v : E} {g : E → ℝ} {l : ℝ}

/-- An affine function with the slope `v` lies below `g` and meets it at `z`. -/
def Supports (g : E → ℝ) (z v : E) : Prop := ∀ y, g z + inner ℝ v (y - z) ≤ g y

theorem power_two_sub (x y z : E) :
    power 2 ‖y - x‖ = power 2 ‖z - x‖ + inner ℝ (z - x) (y - z) + power 2 ‖y - z‖ := by
  have hway : y - x = z - x + (y - z) := by abel
  rw [power_two, power_two, power_two, hway, norm_add_sq_real]
  ring

theorem Supports.least (h : Supports g z (x - z)) (y : E) :
    g z + power 2 ‖z - x‖ + power 2 ‖y - z‖ ≤ g y + power 2 ‖y - x‖ := by
  have hbelow := h y
  have hflipped : inner ℝ (z - x) (y - z) = -inner ℝ (x - z) (y - z) := by
    rw [← neg_sub x z, inner_neg_left]
  rw [power_two_sub x y z, hflipped]
  linarith

theorem supports_square (hl : 0 ≤ l) (f z : E) :
    Supports (fun y => l * power 2 ‖y - f‖) z (l • (z - f)) := by
  intro y
  have hrest : 0 ≤ power 2 ‖y - z‖ := power_two_nonneg _
  change l * power 2 ‖z - f‖ + _ ≤ l * power 2 ‖y - f‖
  rw [power_two_sub f y z, real_inner_smul_left]
  linarith [mul_nonneg hl hrest]

theorem supports_centre (h : ‖v‖ ≤ l) : Supports (fun y => l * power 1 ‖y - f‖) f v := by
  intro y
  have hinner : inner ℝ v (y - f) ≤ l * ‖y - f‖ :=
    (real_inner_le_norm v (y - f)).trans (mul_le_mul_of_nonneg_right h (norm_nonneg _))
  change l * power 1 ‖f - f‖ + _ ≤ l * power 1 ‖y - f‖
  rw [power_one, power_one, sub_self, norm_zero, mul_zero, zero_add]
  exact hinner

theorem supports_distance (hl : 0 ≤ l) (h : z ≠ f) :
    Supports (fun y => l * power 1 ‖y - f‖) z ((l / ‖z - f‖) • (z - f)) := by
  intro y
  have hpos : 0 < ‖z - f‖ := norm_pos_iff.mpr (sub_ne_zero.mpr h)
  have hway : y - z = y - f - (z - f) := by abel
  have hinner : inner ℝ (z - f) (y - z) ≤ ‖z - f‖ * ‖y - f‖ - ‖z - f‖ * ‖z - f‖ := by
    rw [hway, inner_sub_right, real_inner_self_eq_norm_mul_norm]
    exact sub_le_sub_right (real_inner_le_norm _ _) _
  change l * power 1 ‖z - f‖ + _ ≤ l * power 1 ‖y - f‖
  rw [power_one, power_one, real_inner_smul_left]
  calc l * ‖z - f‖ + l / ‖z - f‖ * inner ℝ (z - f) (y - z)
      ≤ l * ‖z - f‖ + l / ‖z - f‖ * (‖z - f‖ * ‖y - f‖ - ‖z - f‖ * ‖z - f‖) := by gcongr
    _ = l * ‖y - f‖ := by field_simp; ring

namespace Share
variable {e : ℕ} {t : ℝ}

theorem supports (h : Share l ‖x - f‖ e t) (hl : 0 < l) :
    Supports (fun y => l * power e ‖y - f‖) (x + t • (f - x)) (x - (x + t • (f - x))) := by
  have hgone (t : ℝ) : x - (x + t • (f - x)) = t • (x - f) := by module
  have hleft (t : ℝ) : x + t • (f - x) - f = (1 - t) • (x - f) := by module
  rw [hgone]
  -- in every case the slope of the weighted distance is the part of the way that is gone
  cases h with
  | square =>
    have hsum : 1 + l ≠ 0 := by positivity
    have hbalance : l • (x + (l / (1 + l)) • (f - x) - f) = (l / (1 + l)) • (x - f) := by
      rw [hleft, smul_smul]
      congr 1
      field_simp
      ring
    rw [← hbalance]
    exact supports_square hl.le f _
  | near h =>
    rw [one_smul, add_sub_cancel, one_smul]
    exact supports_centre h
  | far h =>
    have hd : 0 < ‖x - f‖ := hl.trans h
    have hshort : 0 < 1 - l / ‖x - f‖ := sub_pos.mpr ((div_lt_one hd).mpr h)
    have hnorm : ‖x + (l / ‖x - f‖) • (f - x) - f‖ = (1 - l / ‖x - f‖) * ‖x - f‖ := by
      rw [hleft, norm_smul, Real.norm_of_nonneg hshort.le]
    have hne : x + (l / ‖x - f‖) • (f - x) ≠ f := by
      rw [← sub_ne_zero, ← norm_pos_iff, hnorm]
      positivity
    have hbalance : (l / ‖x + (l / ‖x - f‖) • (f - x) - f‖) •
        (x + (l / ‖x - f‖) • (f - x) - f) = (l / ‖x - f‖) • (x - f) := by
      rw [hnorm, hleft, smul_smul, div_mul_eq_mul_div, mul_comm (1 - l / ‖x - f‖) ‖x - f‖,
        mul_div_mul_right _ _ hshort.ne']
    rw [← hbalance]
    exact supports_distance hl.le hne

theorem mem_segment (h : Share l ‖x - f‖ e t) (hl : 0 < l) : x + t • (f - x) ∈ segment ℝ x f := by
  rw [segment_eq_image']
  exact ⟨t, ⟨h.nonneg hl, h.le_one hl⟩, rfl⟩

theorem eq_centre_iff (h : Share l ‖x - f‖ e t) (hl : 0 < l) :
    x + t • (f - x) = f ↔ (e = 1 ∧ ‖x - f‖ ≤ l) ∨ x = f := by
  have hleft : x + t • (f - x) - f = (1 - t) • (x - f) := by module
  rw [← h.eq_one_iff hl, ← sub_eq_zero, hleft, smul_eq_zero, sub_eq_zero, sub_eq_zero, eq_comm]

end Share

end Slopes

section Operations
variable {n : Nat} {x : Space n} {M : Manifold ℝ} {k d parameter p : Datum ℝ} {size : Number ℝ}
  {e : ℕ} {t : ℝ}

theorem equals_of_compared {j : Int} (hj : Number.isExact j = true) {ν : Number ℝ}
    (h : p.compared = .ok ν) : p.equals j = .ok (decide (ν.value = j)) := by
  have heq : ν.eq (.whole j) = decide (ν.value = j) := by
    rw [Bool.eq_iff_iff, decide_eq_true_iff]
    exact Number.eq_whole_iff hj ν
  unfold Datum.equals
  rw [h]
  change Except.ok (ν.eq (.whole j)) = _
  rw [heq]

theorem equals_of_other {j : Int} (hj : Number.isExact j = true)
    (single : p.compared ≠ .error .wrongValue) (other : ∀ ν, p.compared = .ok ν → ν.value ≠ j) :
    p.equals j = .ok false := by
  rcases h : p.compared with e | ν
  · unfold Datum.equals
    rw [h]
    cases e with
    | wrongValue => exact absurd h single
    | _ => rfl
  · rw [equals_of_compared hj h, decide_eq_false (other ν h)]

theorem le_zero_iff (ν : Number ℝ) : ν.le (.whole 0) = true ↔ ν.value ≤ 0 := by
  rw [Number.le_whole_iff rfl, Int.cast_zero]

theorem fraction_of_nonpos {c q : Point ℝ} (h : parameter.compared = .ok size)
    (hsize : size.value ≤ 0) : Distance.fraction M parameter c q p =
      .error (.misuse (.badProximalParameter parameter)) := by
  unfold Distance.fraction
  rw [h]
  change (if size.le (.whole 0) then _ else _) = _
  rw [if_pos ((le_zero_iff size).mpr hsize)]

theorem fraction_of_pos {c q : Point ℝ} (h : parameter.compared = .ok size)
    (hsize : 0 < size.value) : Distance.fraction M parameter c q p = (do
      if ← refusing (p.equals 2) then
        let whole ← refusing ((Datum.real 1).add parameter)
        refusing (parameter.div whole)
      else if ← refusing (p.equals 1) then
        let d ← M.dist c q
        if (Number.real d).le size then .ok (.real 1) else refusing (parameter.div (.real d))
      else .error (.misuse (.badExponent p))) := by
  unfold Distance.fraction
  rw [h]
  change (if size.le (.whole 0) then _ else _) = _
  rw [if_neg fun hle => hsize.not_ge ((le_zero_iff size).mp hle)]

theorem one_add (h : parameter.number? = some size) :
    (Datum.real 1).add parameter = .ok (.real (1 + size.value)) := by
  cases parameter with
  | truth | whole | real =>
    cases h
    rfl
  | _ => cases h

theorem div_real (h : parameter.number? = some size) {r : ℝ} (hr : r ≠ 0) :
    parameter.div (.real r) = .ok (.real (size.value / r)) := by
  have hnumbers : size.div (.real r) = .ok (.real (size.value / r)) := by
    have hzero : ¬ Scalar.eq r 0 = true := fun heq => hr (decide_eq_true_iff.mp heq)
    cases size with
    | whole | real =>
      change (if Scalar.eq r 0 then _ else _) = _
      rw [if_neg hzero]
      rfl
  unfold Datum.div
  rw [h]
  change (size.div (.real r)).map Datum.ofNumber = _
  rw [hnumbers]
  rfl

theorem fraction_ok (number : parameter.number? = some size) (hsize : 0 < size.value)
    (exact : size.Exact) {ν : Number ℝ} (compared : p.compared = .ok ν) (hν : ν.value = e)
    (he : e = 1 ∨ e = 2) (h : Holds d x) (f : Space n) :
    ∃ t, Distance.fraction (.euclideanOf k) parameter (point f) d p = .ok (.real t) ∧
      Share size.value ‖x - f‖ e t := by
  rw [fraction_of_pos (Datum.compared_of_number number) hsize, equals_of_compared rfl compared,
    equals_of_compared rfl compared, hν]
  rcases he with rfl | rfl
  · have htwo : decide (((1 : ℕ) : ℝ) = ((2 : Int) : ℝ)) = false := decide_eq_false (by norm_num)
    have hone : decide (((1 : ℕ) : ℝ) = ((1 : Int) : ℝ)) = true := decide_eq_true (by norm_num)
    rw [htwo, hone]
    change ∃ t, ((Manifold.euclideanOf k).dist (point f) d >>= fun r =>
      if (Number.real r).le size then Except.ok (Datum.real 1)
      else refusing (parameter.div (.real r))) = _ ∧ _
    rw [dist_holds k h]
    change ∃ t, (if (Number.real ‖x - f‖).le size then Except.ok (Datum.real 1)
      else refusing (parameter.div (.real ‖x - f‖))) = _ ∧ _
    -- the whole way if the centre is no farther than the parameter, else that length of it
    by_cases hnear : ‖x - f‖ ≤ size.value
    · rw [if_pos ((Number.real_le_iff _ exact).mpr hnear)]
      exact ⟨_, rfl, .near hnear⟩
    · have hfar : size.value < ‖x - f‖ := not_le.mp hnear
      rw [if_neg fun hle => hnear ((Number.real_le_iff _ exact).mp hle),
        div_real number (hsize.trans hfar).ne']
      exact ⟨_, rfl, .far hfar⟩
  · have htwo : decide (((2 : ℕ) : ℝ) = ((2 : Int) : ℝ)) = true := decide_eq_true (by norm_num)
    have hsum : 1 + size.value ≠ 0 := by positivity
    rw [htwo]
    change ∃ t, (refusing ((Datum.real 1).add parameter) >>= fun whole =>
      refusing (parameter.div whole)) = _ ∧ _
    rw [one_add number]
    change ∃ t, refusing (parameter.div (.real (1 + size.value))) = _ ∧ _
    rw [div_real number hsum]
    exact ⟨_, rfl, .square⟩

theorem proximal_ok (h : Holds d x)
    (ht : Distance.fraction (.euclideanOf k) parameter (point f) d p = .ok (.real t)) :
    Distance.proximal (.euclideanOf k) parameter (point f) d p =
      .ok (point (x + t • (f - x))) := by
  refine bind_eq_ok_iff.mpr ⟨_, ht, bind_eq_ok_iff.mpr ⟨_, log_point k h f, ?_⟩⟩
  rw [scale_point]
  exact exp_point k h _

/-- The value of what a proximal map makes least, measured on a manifold: the weighted power of the
distance to the centre `c`, and half the squared distance to the point `q`. -/
def Weighs (M : Manifold ℝ) (l : ℝ) (e : ℕ) (c q y : Point ℝ) (w : ℝ) : Prop :=
  ∃ a b, M.dist c y = .ok a ∧ M.dist q y = .ok b ∧ w = l * power e a + power 2 b

theorem weighs_point (k : Datum ℝ) (l : ℝ) (e : ℕ) (f : Space n) (h : Holds d x) (y : Space n) :
    Weighs (.euclideanOf k) l e (point f) d (point y) (l * power e ‖y - f‖ + power 2 ‖y - x‖) :=
  ⟨_, _, dist_point k (holds_point f) y, dist_point k h y, rfl⟩

/-- The law of the proximal map. With a positive parameter and the exponent one or two it answers with
the only point where the sum of the two costs is least. The point lies between the one it came from and
the centre, which it reaches from nearby with the exponent one and else only from there. Any other
exponent and any other parameter is refused. -/
theorem proximal_law (made : Manifold.euclidean (.whole n) = .ok M)
    (number : parameter.number? = some size) :
    (0 < size.value → size.Exact → ∀ (e : ℕ) (ν : Number ℝ), p.compared = .ok ν → ν.value = e →
      e = 1 ∨ e = 2 → ∀ (f x : Space n) (d : Point ℝ), Holds d x →
        ∃ z w, Distance.proximal M parameter (point f) d p = .ok (point z) ∧
          Weighs M size.value e (point f) d (point z) w ∧
          (∀ y, ∃ w', Weighs M size.value e (point f) d (point y) w' ∧ w ≤ w' ∧
            (w' = w → y = z)) ∧
          z ∈ segment ℝ x f ∧ ∃ r, M.dist (point f) d = .ok r ∧
            (z = f ↔ (e = 1 ∧ r ≤ size.value) ∨ x = f)) ∧
    (0 < size.value → p.compared ≠ .error .wrongValue →
      (∀ ν, p.compared = .ok ν → ν.value ≠ 1 ∧ ν.value ≠ 2) →
      ∀ (N : Manifold ℝ) (c q : Point ℝ),
        Distance.proximal N parameter c q p = .error (.misuse (.badExponent p))) ∧
    (size.value ≤ 0 → ∀ (N : Manifold ℝ) (c q : Point ℝ),
      Distance.proximal N parameter c q p =
        .error (.misuse (.badProximalParameter parameter))) := by
  obtain ⟨-, -, hmade⟩ := bind_eq_ok_iff.mp made
  cases hmade
  have compared : parameter.compared = .ok size := Datum.compared_of_number number
  refine ⟨fun positive exact e ν hp hν he f x d holds => ?_, fun positive single other N c q => ?_,
    fun nonpos N c q => ?_⟩
  · obtain ⟨t, hfraction, share⟩ := fraction_ok (k := .whole n) number positive exact hp hν he holds f
    have least := (share.supports positive).least
    refine ⟨_, _, proximal_ok holds hfraction, weighs_point _ _ e f holds _, fun y => ?_,
      share.mem_segment positive, _, dist_holds _ holds f, share.eq_centre_iff positive⟩
    refine ⟨_, weighs_point _ _ e f holds y, ?_, fun hsame => ?_⟩
    · linarith [least y, power_two_nonneg ‖y - (x + t • (f - x))‖]
    · by_contra hne
      have hpos : 0 < ‖y - (x + t • (f - x))‖ := norm_pos_iff.mpr (sub_ne_zero.mpr hne)
      linarith [least y, power_two_pos hpos]
  · have hone : p.equals 1 = .ok false := equals_of_other rfl single fun ν hν => by
      rw [Int.cast_one]
      exact (other ν hν).1
    have htwo : p.equals 2 = .ok false := equals_of_other rfl single fun ν hν => by
      rw [Int.cast_ofNat]
      exact (other ν hν).2
    rw [Distance.proximal, fraction_of_pos compared positive, htwo, hone]
    rfl
  · rw [Distance.proximal, fraction_of_nonpos compared nonpos]
    rfl

theorem proximal_law_triangle :
    ∃ z w, Distance.proximal (.euclideanOf (.whole 2)) (.real 2) (point !₂[3, 4])
        (point (0 : Space 2)) (.whole 1) = .ok (point z) ∧
      (∀ y, ∃ w', Weighs (.euclideanOf (.whole 2)) 2 1 (point !₂[3, 4]) (point (0 : Space 2))
        (point y) w' ∧ w ≤ w' ∧ (w' = w → y = z)) ∧
      z ∈ segment ℝ 0 !₂[3, 4] ∧ z ≠ !₂[3, 4] := by
  have hlength : ‖(0 : Space 2) - !₂[3, 4]‖ = 5 := by
    rw [zero_sub, norm_neg, EuclideanSpace.norm_eq, Fin.sum_univ_two, Real.sqrt_eq_iff_mul_self_eq]
    all_goals norm_num
  have number : (Datum.real (2 : ℝ)).number? = some (.real 2) := rfl
  obtain ⟨hleast, -, -⟩ := proximal_law (n := 2) (M := .euclideanOf (.whole 2)) (p := .whole 1)
    rfl number
  have hexponent : (Number.whole 1 : Number ℝ).value = (1 : ℕ) := by norm_num [Number.value]
  obtain ⟨z, w, hz, -, hleast, hsegment, r, hr, hcentre⟩ := hleast two_pos trivial 1 (.whole 1) rfl
    hexponent (.inl rfl) !₂[3, 4] 0 _ (holds_point 0)
  cases hr.symm.trans (dist_holds _ (holds_point 0) !₂[3, 4])
  refine ⟨z, w, hz, hleast, hsegment, fun hreached => ?_⟩
  rcases hcentre.mp hreached with ⟨-, hnear⟩ | hsame
  · rw [hlength] at hnear
    have hfar : ¬ (5 : ℝ) ≤ 2 := by norm_num
    exact hfar hnear
  · rw [hsame, sub_self, norm_zero] at hlength
    exact absurd hlength (by norm_num)

end Operations

end Flat
end Geodescent
