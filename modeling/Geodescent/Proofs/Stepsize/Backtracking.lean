import Geodescent.Stepsize.Basic

/-! What a line search answers. A step is either the initial one, where the gradient vanishes, or one
that was tested and accepted: `next_ok`. -/
namespace Geodescent.Armijo
variable {ε α : Type} [Scalar α] {r : Armijo ε α} {p : Problem ε α} {x g : Point α}
  {start slope step : α} {it : Datum α} {w w' : Workshop ε}

/-- A trial step that was accepted: the tangent vector `u` of the step leads to `y`, where the cost is
`value`, and that is low enough. -/
structure Accepted (r : Armijo ε α) (p : Problem ε α) (x g : Point α) (start slope step : α)
    (u y : Point α) (value : α) : Prop where
  vector : (Datum.real (-step)).mul g = .ok u
  leads : ∃ env env', r.move p.manifold x u env = .ok y env'
  tested : ∃ env env', p.costAt y env = .ok value env'
  accepted : Scalar.le value (start - r.decrease * step * slope) = true

/-- What a search measures first: the gradient, the cost and the squared length of the gradient. -/
structure Measured (p : Problem ε α) (s : Position α) (g : Point α) (start slope : α) : Prop where
  gradient : ∃ env env', gradientOf p s env = .ok g env'
  cost : ∃ env env', p.costAt s.x env = .ok start env'
  inner : ∃ product, p.manifold.inner s.x g g = .ok product ∧ product.toReal = .ok slope

omit [Scalar α] in
theorem asking_ok {β : Type} {m : Asking ε α β} {b : β} (h : asking m w = .ok b w') :
    ∃ env, m w.env = .ok b env := by
  obtain ⟨env, hm, -⟩ := (Part.run_eq_ok_iff _).mp h
  exact ⟨env, hm⟩

theorem trial_ok {value : α} {env env' : ε} (h : r.trial p x g step env = .ok value env') :
    ∃ u y, (Datum.real (-step)).mul g = .ok u ∧
      (∃ env env', r.move p.manifold x u env = .ok y env') ∧
      ∃ env env', p.costAt y env = .ok value env' := by
  unfold trial at h
  obtain ⟨u, hu, h₁⟩ := settled_bind_eq_ok_iff.mp h
  have hvector : (Datum.real (-step)).mul g = .ok u := refusing_eq_ok_iff.mp hu
  obtain ⟨y, e', hmove, hcost⟩ := sequence_eq_ok_iff.mp h₁
  exact ⟨u, y, hvector, ⟨_, _, hmove⟩, _, _, hcost⟩

theorem search_ok {budget : Datum α} {trials contractions : Nat} {first : α}
    (h : r.search p x g start slope it budget trials contractions first w = .ok step w') :
    ∃ u y value, r.Accepted p x g start slope step u y value := by
  induction trials generalizing contractions first w with
  | zero => cases h
  | succ trials ih =>
    unfold search at h
    obtain ⟨value, w₁, hasked, h₁⟩ := sequence_eq_ok_iff.mp h
    by_cases haccepts : r.accepts start slope first value = true
    · rw [if_pos haccepts] at h₁
      obtain ⟨_, w₂, hnoted, h₂⟩ := sequence_eq_ok_iff.mp h₁
      cases h₂
      obtain ⟨env, htrial⟩ := asking_ok hasked
      obtain ⟨u, y, hvector, hleads, htested⟩ := trial_ok htrial
      exact ⟨u, y, value, hvector, hleads, htested, haccepts⟩
    · rw [if_neg haccepts] at h₁
      exact ih h₁

theorem next_ok {settings : Settings α} {s : Position α}
    (h : r.next settings p s it w = .ok step w') :
    ∃ g start slope, Measured p s g start slope ∧
      (Scalar.eq slope 0 = true → step = r.initial) ∧
      (Scalar.eq slope 0 = false →
        ∃ u y value, r.Accepted p s.x g start slope step u y value) := by
  unfold next at h
  obtain ⟨g, w₁, hg, h₁⟩ := sequence_eq_ok_iff.mp h
  obtain ⟨start, w₂, hstart, h₂⟩ := sequence_eq_ok_iff.mp h₁
  obtain ⟨product, hproduct, h₃⟩ := settled_bind_eq_ok_iff.mp h₂
  obtain ⟨slope, hslope, h₄⟩ := settled_bind_eq_ok_iff.mp h₃
  have hmeasured : Measured p s g start slope := by
    obtain ⟨env, hgradient⟩ := asking_ok hg
    obtain ⟨env', hcost⟩ := asking_ok hstart
    exact ⟨⟨_, _, hgradient⟩, ⟨_, _, hcost⟩, product, hproduct, refusing_eq_ok_iff.mp hslope⟩
  refine ⟨g, start, slope, hmeasured, fun hzero => ?_, fun hnonzero => ?_⟩
  · rw [if_pos hzero] at h₄
    cases h₄
    rfl
  · rw [if_neg (by simp [hnonzero])] at h₄
    obtain ⟨count, w₃, -, hsearch⟩ := sequence_eq_ok_iff.mp h₄
    exact search_ok hsearch

end Geodescent.Armijo

namespace Geodescent.Stepsize
variable {ε α : Type} [Scalar α] {r : Armijo ε α} {p : Problem ε α} {settings : Settings α}
  {s : Position α} {it : Datum α} {w w' : Workshop ε}

theorem next_armijo_eq_ok_iff {answer : Datum α} :
    (armijo r).next settings p s it w = .ok answer w' ↔
      ∃ step, answer = .real step ∧ r.next settings p s it w = .ok step w' := by
  unfold next
  constructor
  · intro h
    obtain ⟨step, _, hstep, hpure⟩ := sequence_eq_ok_iff.mp h
    cases hpure
    exact ⟨step, rfl, hstep⟩
  · rintro ⟨step, rfl, hstep⟩
    exact sequence_eq_ok_iff.mpr ⟨step, w', hstep, rfl⟩

theorem next_armijo_error {e : Fault α} (h : r.next settings p s it w = .error e w') :
    (armijo r).next settings p s it w = .error e w' := by
  unfold next
  exact bind_of_error h

theorem check_real_eq_ok_iff {step length : α} {k : Int} {allowZero : Bool} :
    check (.real length) k allowZero = .ok step ↔
      step = length ∧ usable length allowZero = true := by
  rw [check_eq_ok_iff, Datum.toReal_real]
  constructor
  · rintro ⟨⟨⟩, husable⟩
    exact ⟨rfl, husable⟩
  · rintro ⟨rfl, husable⟩
    exact ⟨rfl, husable⟩

end Geodescent.Stepsize
