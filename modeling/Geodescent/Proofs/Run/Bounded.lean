import Geodescent.Manifold.Euclidean
import Geodescent.Proofs.Criterion.Bound
import Geodescent.Proofs.Run.Law

/-! Runs whose criterion has a bound. A run in which no call fails ends after at most as many
iterations as the bound of its criterion, and after exactly as many if the criterion is made of
caps: `bounded_law`. -/
namespace Geodescent.Solver
variable {ε α : Type} [Scalar α] {p : Problem ε α} {o : Options ε α} {chain : List (Decorator ε α)}
  {solver : Solver ε α} {s t : Session ε α}

omit [Scalar α] in
theorem judge_mem_calls (chain : List (Decorator ε α)) {k n : Nat} (h : k ≤ n) :
    .judge k ∈ calls chain n := by
  refine List.mem_cons_of_mem _ (List.mem_append_right _ ?_)
  rcases Nat.eq_zero_or_pos k with rfl | hk
  · exact List.mem_cons_self
  · exact List.mem_cons_of_mem _ (List.mem_append_left _ (judge_mem_rounds chain hk h))

theorem answers_of_judge {k : Nat} {b : Bool}
    (h : (Call.judge k).perform p o solver s = .ok b t) :
    o.criterion.Answers p s.state k b := by
  obtain ⟨_, u, hget, h₁⟩ := sequence_eq_ok_iff.mp h
  cases hget
  obtain ⟨j, hask, -⟩ := (Part.run_eq_ok_iff _).mp h₁
  rw [← Criterion.outcome_ask] at hask
  exact ⟨_, j, _, Prod.ext rfl hask⟩

theorem answers_of_mem_history {fuel k : Nat} {b : Bool} {v : Visit ε α}
    (hv : v ∈ history fuel p o chain solver s) (hk : v.call = .judge k)
    (ht : v.outcome = .ok b t) : o.criterion.Answers p v.before.state k b := by
  have hperformed := outcome_of_mem_history hv
  rw [hk, ht] at hperformed
  exact answers_of_judge hperformed.symm

theorem solve_of_bound {fuel B : Nat} {s₁ : Session ε α} (accepted : validate p s = .ok () s₁)
    (bounded : o.criterion.bound = B) (hfuel : B ≤ fuel)
    (calm : ∀ v ∈ history fuel p o chain solver s, v.Calm p) :
    ∃ t, solve fuel p o chain solver s = .ok () t := by
  rcases h : Narrated.solve p o chain solver fuel s with ⟨vs, ⟨_, t⟩ | ⟨e, t⟩⟩
  · refine ⟨t, ?_⟩
    rw [← outcome_solve]
    exact congrArg Prod.snd h
  · -- the criterion was asked after the last iteration, where it is bound to hold
    have hvs : vs = history fuel p o chain solver s := by rw [history, h]
    rw [← hvs] at calm
    obtain ⟨hsilent, v, hv, hk⟩ := solve_error accepted calm h
    obtain ⟨b, u, hu, -⟩ := calm v hv
    have hanswers := answers_of_mem_history (hvs ▸ hv) hk hu
    have hle : o.criterion.bound ≤ fuel := by
      rw [bounded]
      exact Nat.cast_le.mpr hfuel
    have htrue : b = true := Criterion.answers_of_bound_le hanswers hle
    rw [htrue] at hu
    exact absurd ⟨fuel, u, hk, hu⟩ (hsilent v hv)

theorem iterations_of_bound {fuel B : Nat} (h : solve fuel p o chain solver s = .ok () t)
    (bounded : o.criterion.bound = B) :
    ∃ n ≤ B, t.state.iteration = .whole (Int.ofNat n) ∧
      (history fuel p o chain solver s).map Visit.call = calls chain n ∧
      (o.criterion.Capped → n = B) := by
  obtain ⟨n, hiteration, hcalls, hanswers⟩ := calls_of_solve h
  have asked : ∀ k ≤ n, ∃ v ∈ history fuel p o chain solver s, v.call = .judge k := by
    intro k hk
    have hmem : Call.judge k ∈ (history fuel p o chain solver s).map Visit.call := by
      rw [hcalls]
      exact judge_mem_calls chain hk
    exact List.mem_map.mp hmem
  have hle : n ≤ B := by
    -- a longer run has asked the criterion at its bound, where it holds, and would have ended there
    by_contra hlt
    obtain ⟨v, hv, hk⟩ := asked B (Nat.le_of_not_le hlt)
    obtain ⟨u, hu⟩ := hanswers v hv B hk
    have htrue := Criterion.answers_of_bound_le (answers_of_mem_history hv hk hu) bounded.le
    exact absurd (of_decide_eq_true htrue).ge hlt
  -- the criterion held in the last iteration, and nothing but caps can be the cause
  have hcapped (capped : o.criterion.Capped) : n = B := by
    obtain ⟨v, hv, hk⟩ := asked n (Nat.le_refl n)
    obtain ⟨u, hu⟩ := hanswers v hv n hk
    rw [decide_eq_true rfl] at hu
    have hbound := Criterion.bound_le_of_answers capped (answers_of_mem_history hv hk hu)
    rw [bounded] at hbound
    exact Nat.le_antisymm hle (Nat.cast_le.mp hbound)
  exact ⟨n, hle, hiteration, hcalls, hcapped⟩

/-- The law of bounds. A run without a failed call ends by the bound of its criterion, exactly then if
the criterion is made of caps; and the standard criteria have bounds. -/
theorem bounded_law {fuel B : Nat} {s₁ : Session ε α} (accepted : validate p s = .ok () s₁)
    (bounded : o.criterion.bound = B) (hfuel : B ≤ fuel)
    (calm : ∀ v ∈ history fuel p o chain solver s, v.Calm p) :
    (∃ n ≤ B, ∃ t, solve fuel p o chain solver s = .ok () t ∧
      t.state.iteration = .whole (Int.ofNat n) ∧
      (history fuel p o chain solver s).map Visit.call = calls chain n ∧
      (o.criterion.Capped → n = B)) ∧
    ∀ id (flavour : Flavour ε α), (Options.standardCriterion id flavour).1.bound =
      match flavour with
      | .sweep _ => 5000
      | _ => 100 := by
  refine ⟨?_, fun id flavour => Criterion.bound_standard id flavour⟩
  obtain ⟨t, ht⟩ := solve_of_bound accepted bounded hfuel calm
  obtain ⟨n, hle, hiteration, hcalls, hcapped⟩ := iterations_of_bound ht bounded
  exact ⟨n, hle, t, ht, hiteration, hcalls, hcapped⟩

def capped : Options Unit Float :=
  ⟨.plain, .any 0 [.atom 1 (.cap 5), .all 2 [.atom 3 (.cap 2), .atom 4 (.cap 3)]], .constant 1⟩

def cautious : Options Unit Float :=
  ⟨.plain, .all 0 [.atom 1 (.cap 1), .any 2 [.atom 3 (.cap 3), .atom 4 (.change 2)]], .constant 1⟩

theorem bounded_law_counting :
    (∃ t, solve 4 line capped [.plain] counting origin = .ok () t ∧ t.state.iteration = .whole 3) ∧
    ∃ n ≤ 3, ∃ t, solve 3 line cautious [.plain] counting origin = .ok () t ∧
      t.state.iteration = .whole (Int.ofNat n) := by
  constructor
  · have bounded : capped.criterion.bound = (3 : Nat) := rfl
    have calm : ∀ v ∈ history 4 line capped [.plain] counting origin, v.Calm line := by decide
    obtain ⟨⟨n, -, t, ht, hiteration, -, hexact⟩, -⟩ := bounded_law rfl bounded (by decide) calm
    rw [hexact (by decide)] at hiteration
    exact ⟨t, ht, hiteration⟩
  · have bounded : cautious.criterion.bound = (3 : Nat) := rfl
    have calm : ∀ v ∈ history 3 line cautious [.plain] counting origin, v.Calm line := by
      decide +kernel
    obtain ⟨⟨n, hn, t, ht, hiteration, -⟩, -⟩ := bounded_law rfl bounded (by decide) calm
    exact ⟨n, hn, t, ht, hiteration⟩

end Geodescent.Solver
