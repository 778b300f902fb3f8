import Geodescent.Proofs.Run.Calm

/-! Where a run stops: the position at which the criterion held is the position at the end. -/
namespace Geodescent.Solver
variable {ε α : Type} [Scalar α] {p : Problem ε α} {o : Options ε α} {chain : List (Decorator ε α)}
  {solver : Solver ε α} {s t : Session ε α} {vs : List (Visit ε α)} {v : Visit ε α}

theorem position_finish {n : Nat} (h : Narrated.finish p o chain solver n s = (vs, .ok () t)) :
    t.state.position = s.state.position ∧ ∀ v ∈ vs, ¬ v.Stops := by
  obtain ⟨_, u, hclose, hw⟩ := Scribe.tacit_bind_eq_ok_iff.mp h
  obtain ⟨-, hstate, -⟩ := visitEach_hooks hw
  have hsilent := (silent_hooks .stop n).entries trivial hw
  refine ⟨?_, fun v hv => Visit.not_stops_of_call (hsilent v hv)⟩
  rw [hstate, (agrees_close hclose).position]

theorem position_judge {fuel done k n : Nat} {stop : Bool} {m w : Session ε α}
    (hjudge : (Call.judge k).perform p o solver m = .ok stop w)
    (hstops : Visit.Stops ⟨.judge k, m, .ok stop w⟩)
    (h : Narrated.onward p o chain solver fuel done stop w = (vs, .ok n t)) :
    t.state.position = m.state.position := by
  obtain ⟨j, u, -, hout⟩ := hstops
  cases hout
  rw [Narrated.onward] at h
  obtain ⟨-, rfl, -⟩ := Scribe.pure_eq_ok_iff.mp h
  exact congrArg State.position (perform_judge hjudge)

theorem position_onward {fuel done n : Nat} {stop : Bool}
    (h : Narrated.onward p o chain solver fuel done stop s = (vs, .ok n t)) (hv : v ∈ vs)
    (hstops : v.Stops) : t.state.position = v.before.state.position := by
  induction fuel, done, stop using Narrated.onward.induct generalizing s vs with
  | case1 fuel done =>
    rw [Narrated.onward] at h
    obtain ⟨-, -, rfl⟩ := Scribe.pure_eq_ok_iff.mp h
    exact absurd hv List.not_mem_nil
  | case2 done => cases (Scribe.tacit_eq_ok_iff.mp h).1
  | case3 fuel done ih =>
    obtain ⟨_, m, fs, _, hp, h₁, rfl⟩ := Scribe.bind_eq_ok_iff.mp h
    obtain ⟨stop, w, ws, hjudge, h₂, rfl⟩ := visit_bind_eq_ok_iff.mp h₁
    rcases List.mem_append.mp hv with hv | hv
    · have hsilent := (silent_pass (done + 1)).entries trivial hp v hv
      exact absurd hstops (Visit.not_stops_of_call hsilent)
    rcases List.mem_cons.mp hv with rfl | hv
    · exact position_judge hjudge hstops h₂
    · exact ih _ h₂ hv

theorem position_course {fuel : Nat}
    (h : Narrated.course p o chain solver fuel s = (vs, .ok () t)) (hv : v ∈ vs)
    (hstops : v.Stops) : t.state.position = v.before.state.position := by
  obtain ⟨u, m, stop, w, n, r, starts, ws, stops, hstarts, -, hjudge, honward, hfinish, rfl⟩ :=
    course_parts h
  obtain ⟨hend, hsilent⟩ := position_finish hfinish
  rw [hend]
  rcases List.mem_append.mp hv with hv | hv
  · have hsilent := (silent_hooks .start 0).entries trivial hstarts v hv
    exact absurd hstops (Visit.not_stops_of_call hsilent)
  rcases List.mem_cons.mp hv with rfl | hv
  · exact position_judge hjudge hstops honward
  rcases List.mem_append.mp hv with hv | hv
  · exact position_onward honward hv hstops
  · exact absurd hstops (hsilent v hv)

theorem position_of_stops {fuel : Nat} (h : solve fuel p o chain solver s = .ok () t)
    (hv : v ∈ history fuel p o chain solver s) (hstops : v.Stops) :
    t.state.position = v.before.state.position := by
  have hnarrated : Narrated.solve p o chain solver fuel s =
      (history fuel p o chain solver s, .ok () t) := by
    rw [← outcome_solve] at h
    exact Prod.ext rfl h
  obtain ⟨s₁, w, ws, -, -, hcourse, hhistory⟩ := solve_parts hnarrated
  rw [hhistory] at hv
  rcases List.mem_cons.mp hv with rfl | hv
  · exact absurd hstops (Visit.not_stops_of_call nofun)
  · exact position_course hcourse hv hstops

end Geodescent.Solver
