import Geodescent.Proofs.Observation.Chain
import Geodescent.Proofs.Run.Law

/-! Quantities that only the hooks of one decorator change. At the end of a run they are what the
calls of these hooks have made of them, one call at the start, one after every iteration and one at
the stop: `Tally.solve`. -/
namespace Geodescent.Solver
variable {ε α : Type} [Scalar α] {p : Problem ε α} {o : Options ε α} {solver : Solver ε α}
  {s t : Session ε α} {vs : List (Visit ε α)}

/-- The moments after the start at which the hooks of a run of `n` iterations are called. -/
def beats (n : Nat) : List (Phase × Nat) :=
  (List.range' 1 n).map (fun k => (.iteration, k)) ++ [(.stop, n)]

def laps (n : Nat) : List (Phase × Nat) := (List.range' 1 n).map fun k => (.iteration, k)

theorem beats_eq (n : Nat) : beats n = laps n ++ [(.stop, n)] := rfl

def hooksAt (d : Decorator ε α) (moments : List (Phase × Nat)) : List (Call ε α) :=
  moments.map fun m => .hook m.1 m.2 d

/-- Where `I` holds, every call that reaches the hook of `d` changes the quantity `f` by `op`, and no
other call changes it, as long as all other hooks are those of `others`. -/
structure Tally (p : Problem ε α) (o : Options ε α) (solver : Solver ε α)
    (others : List (Decorator ε α)) (d : Decorator ε α) (I : Session ε α → Prop) {β : Type}
    (f : Session ε α → β) (op : β → Visit ε α → β) : Prop where
  books : ∀ s t, s.Agrees t → I s → I t ∧ f t = f s
  others : ∀ (c : Call ε α) s b t, c.perform p o solver s = .ok b t →
    (∀ phase k e, c = .hook phase k e → e ∈ others) → I s → I t ∧ f t = f s
  told : ∀ phase k s b t, (Call.hook phase k d).perform p o solver s = .ok b t → I s →
    I t ∧ f t = op (f s) ⟨.hook phase k d, s, .ok b t⟩

def Performed (p : Problem ε α) (o : Options ε α) (solver : Solver ε α) (vs : List (Visit ε α)) :
    Prop :=
  ∀ v ∈ vs, v.outcome = v.call.perform p o solver v.before

namespace Tally
variable {pre post : List (Decorator ε α)} {d : Decorator ε α} {I : Session ε α → Prop} {β : Type}
  {f : Session ε α → β} {op : β → Visit ε α → β} (tally : Tally p o solver (pre ++ post) d I f op)
include tally

theorem of_others (linked : Linked s vs t) (performed : Performed p o solver vs)
    (hothers : ∀ v ∈ vs, ∀ phase k e, v.call = .hook phase k e → e ∈ pre ++ post) (hs : I s) :
    I t ∧ f t = f s := by
  induction linked with
  | nil hagrees => exact tally.books _ _ hagrees hs
  | cons hagrees hu _ ih =>
    obtain ⟨hfirst, hrest⟩ := List.forall_mem_cons.mp performed
    obtain ⟨hcall, hcalls⟩ := List.forall_mem_cons.mp hothers
    obtain ⟨hbefore, hsame⟩ := tally.books _ _ hagrees hs
    obtain ⟨hafter, hunheard⟩ := tally.others _ _ _ _ (hfirst ▸ hu) hcall hbefore
    obtain ⟨ht, hend⟩ := ih hrest hcalls hafter
    exact ⟨ht, hend.trans (hunheard.trans hsame)⟩

theorem of_other {v : Visit ε α} (linked : Linked s [v] t) (performed : Performed p o solver [v])
    (hv : ∀ phase k e, v.call ≠ .hook phase k e) (hs : I s) : I t ∧ f t = f s := by
  refine tally.of_others linked performed (fun w hw phase k e he => ?_) hs
  rw [List.mem_singleton.mp hw] at he
  exact absurd he (hv phase k e)

theorem of_hooks {phase : Phase} {k : Nat} (linked : Linked s vs t)
    (performed : Performed p o solver vs)
    (hcalls : vs.map Visit.call = hooks (pre ++ d :: post) phase k) (hs : I s) :
    ∃ v, [v].Sublist vs ∧ v.call = .hook phase k d ∧ I v.before ∧ I t ∧ f t = op (f s) v := by
  have hsplit : (hooks (pre ++ d :: post) phase k : List (Call ε α)) =
      hooks pre phase k ++ .hook phase k d :: hooks post phase k := List.map_append
  -- one of the hooks is the one of `d`, and those around it leave the quantity alone
  obtain ⟨before, rest, rfl, hbefore, hrest⟩ := List.map_eq_append_iff.mp (hcalls.trans hsplit)
  obtain ⟨v, after, rfl, hv, hafter⟩ := List.map_eq_cons_iff.mp hrest
  obtain ⟨hperformed, hothers⟩ := List.forall_mem_append.mp performed
  obtain ⟨hown, hperformed'⟩ := List.forall_mem_cons.mp hothers
  obtain ⟨m, hlinked, hlinked'⟩ := linked.split
  have unheard : ∀ ds : List (Decorator ε α), ds ⊆ pre ++ post → ∀ us : List (Visit ε α),
      us.map Visit.call = hooks ds phase k →
      ∀ u ∈ us, ∀ phase' k' e, u.call = .hook phase' k' e → e ∈ pre ++ post := by
    intro ds hds us hus u hu phase' k' e he
    have hmem : u.call ∈ hooks ds phase k := hus ▸ List.mem_map_of_mem hu
    obtain ⟨e', he', hsame⟩ := List.mem_map.mp hmem
    rw [he] at hsame
    cases hsame
    exact hds he'
  obtain ⟨hm, hfm⟩ := tally.of_others hlinked hperformed
    (unheard pre (List.subset_append_left pre post) before hbefore) hs
  cases hlinked' with
  | @cons _ _ u _ _ b hagrees hu hlinked'' =>
    obtain ⟨hbegin, hfbegin⟩ := tally.books _ _ hagrees hm
    have hperform : (Call.hook phase k d).perform p o solver v.before = .ok b u := by
      rw [← hv, ← hown, hu]
    have hvisit : v = ⟨.hook phase k d, v.before, .ok b u⟩ := by
      rw [← hv, ← hu]
    obtain ⟨htold, hftold⟩ := tally.told phase k v.before b u hperform hbegin
    rw [← hvisit] at hftold
    obtain ⟨ht, hft⟩ := tally.of_others hlinked'' hperformed'
      (unheard post (List.subset_append_right pre post) after hafter) htold
    have hsublist : [v].Sublist (v :: after) := (List.nil_sublist after).cons_cons v
    refine ⟨v, hsublist.trans (List.sublist_append_right before _), hv, hbegin, ht, ?_⟩
    rw [hft, hftold, hfbegin, hfm]

theorem of_rounds {ks : List Nat} (linked : Linked s vs t) (performed : Performed p o solver vs)
    (hcalls : vs.map Visit.call = ks.flatMap fun k =>
      .step k :: (hooks (pre ++ d :: post) .iteration k ++ [.judge k])) (hs : I s) :
    ∃ ws : List (Visit ε α), ws.Sublist vs ∧
      ws.map Visit.call = hooksAt d (ks.map fun k => (.iteration, k)) ∧
      (∀ w ∈ ws, I w.before) ∧ I t ∧ f t = ws.foldl op (f s) := by
  induction ks generalizing s vs with
  | nil =>
    rw [List.flatMap_nil, List.map_eq_nil_iff] at hcalls
    subst hcalls
    obtain ⟨ht, hft⟩ := tally.of_others linked performed (fun _ hv => absurd hv List.not_mem_nil) hs
    exact ⟨[], .refl [], rfl, fun _ hw => absurd hw List.not_mem_nil, ht, hft⟩
  | cons k ks ih =>
    rw [List.flatMap_cons] at hcalls
    obtain ⟨round, rest, rfl, hround, hrest⟩ := List.map_eq_append_iff.mp hcalls
    obtain ⟨step, later, rfl, hstep, hlater⟩ := List.map_eq_cons_iff.mp hround
    obtain ⟨heard, judges, rfl, hheard, hjudges⟩ := List.map_eq_append_iff.mp hlater
    obtain ⟨judge, rfl, hjudge⟩ := List.map_eq_singleton_iff.mp hjudges
    obtain ⟨hthis, hothers⟩ := List.forall_mem_append.mp performed
    obtain ⟨hfirst, hmiddle⟩ := List.forall_mem_cons.mp hthis
    obtain ⟨hhooks, hlast⟩ := List.forall_mem_append.mp hmiddle
    obtain ⟨m, hround, hafter⟩ := linked.split
    -- the step, the hooks and the call of the criterion, of which only the hooks count
    obtain ⟨u, hu, hround⟩ := (show Linked s ([step] ++ (heard ++ [judge])) m from hround).split
    obtain ⟨w, hw, hround⟩ := hround.split
    obtain ⟨hIu, hfu⟩ := tally.of_other hu (List.forall_mem_singleton.mpr hfirst)
      (hstep ▸ Call.step_ne_hook _) hs
    obtain ⟨v, hsub, hv, hIv, hIw, hfw⟩ := tally.of_hooks hw hhooks hheard hIu
    obtain ⟨hIm, hfm⟩ := tally.of_other hround hlast
      (hjudge ▸ Call.judge_ne_hook _) hIw
    obtain ⟨ws, hws, hwcalls, hIws, ht, hend⟩ := ih hafter hothers hrest hIm
    refine ⟨v :: ws, ?_, ?_, List.forall_mem_cons.mpr ⟨hIv, hIws⟩, ht, ?_⟩
    · have hround : [v].Sublist (step :: (heard ++ [judge])) :=
        (hsub.trans (List.sublist_append_left heard [judge])).cons step
      exact hround.append hws
    · rw [List.map_cons, hv, hwcalls]
      rfl
    · rw [hend, hfm, hfw, hfu, List.foldl_cons]

theorem of_running {n : Nat} (linked : Linked s vs t) (performed : Performed p o solver vs)
    (hcalls : vs.map Visit.call = .prepare :: (hooks (pre ++ d :: post) .start 0 ++
      .judge 0 :: rounds (pre ++ d :: post) 0 n)) (hs : I s) :
    ∃ ws : List (Visit ε α), ws.Sublist vs ∧
      ws.map Visit.call = hooksAt d ((.start, 0) :: laps n) ∧ (∀ w ∈ ws, I w.before) ∧ I t ∧
      f t = ws.foldl op (f s) := by
  obtain ⟨prepare, begun, rfl, hprepare, hbegun⟩ := List.map_eq_cons_iff.mp hcalls
  obtain ⟨starts, asked, rfl, hstarts, hasked⟩ := List.map_eq_append_iff.mp hbegun
  obtain ⟨judge, iterated, rfl, hjudge, hrounds⟩ := List.map_eq_cons_iff.mp hasked
  obtain ⟨hfirst, hothers⟩ := List.forall_mem_cons.mp performed
  obtain ⟨hstarted, hothers⟩ := List.forall_mem_append.mp hothers
  obtain ⟨hjudged, hiterated⟩ := List.forall_mem_cons.mp hothers
  obtain ⟨u, hu, linked⟩ := (show Linked s ([prepare] ++ _) t from linked).split
  obtain ⟨m, hm, linked⟩ := linked.split
  obtain ⟨w, hw, hr⟩ := (show Linked m ([judge] ++ _) t from linked).split
  obtain ⟨hIu, hfu⟩ := tally.of_other hu (List.forall_mem_singleton.mpr hfirst)
    (hprepare ▸ Call.prepare_ne_hook) hs
  obtain ⟨v, hvsub, hv, hIv, hIm, hfm⟩ := tally.of_hooks hm hstarted hstarts hIu
  obtain ⟨hIw, hfw⟩ := tally.of_other hw (List.forall_mem_singleton.mpr hjudged)
    (hjudge ▸ Call.judge_ne_hook _) hIm
  obtain ⟨ws, hwssub, hws, hIws, hIt, hft⟩ := tally.of_rounds hr hiterated hrounds hIw
  refine ⟨v :: ws, ?_, ?_, List.forall_mem_cons.mpr ⟨hIv, hIws⟩, hIt, ?_⟩
  · exact (hvsub.append (hwssub.cons judge)).cons prepare
  · rw [List.map_cons, hws, hv]
    rfl
  · rw [List.foldl_cons, hft, hfw, hfm, hfu]

theorem solve {fuel : Nat} (h : Solver.solve fuel p o (pre ++ d :: post) solver s = .ok () t)
    (hI : ∀ s₁, validate p s = .ok () s₁ → I s₁) :
    ∃ s₁ n, ∃ ws : List (Visit ε α), validate p s = .ok () s₁ ∧
      t.state.iteration = .whole (Int.ofNat n) ∧
      ws.Sublist (history fuel p o (pre ++ d :: post) solver s) ∧
      ws.map Visit.call = hooksAt d ((.start, 0) :: beats n) ∧ (∀ w ∈ ws, I w.before) ∧
      f t = ws.foldl op (f s₁) := by
  obtain ⟨n, hiteration, hcalls, -⟩ := calls_of_solve h
  obtain ⟨s₁, hvalid, linked⟩ := linked_of_solve h
  have performed : Performed p o solver (history fuel p o (pre ++ d :: post) solver s) :=
    fun v hv => outcome_of_mem_history hv
  generalize history fuel p o (pre ++ d :: post) solver s = vs at hcalls linked performed ⊢
  have hsplit : calls (pre ++ d :: post) n = (.prepare :: (hooks (pre ++ d :: post) .start 0 ++
      .judge 0 :: rounds (pre ++ d :: post) 0 n)) ++ hooks (pre ++ d :: post) .stop n := by
    simp only [calls, List.cons_append, List.append_assoc]
  obtain ⟨running, stops, rfl, hrunning, hstops⟩ :=
    List.map_eq_append_iff.mp (hcalls.trans hsplit)
  obtain ⟨hran, hstopped⟩ := List.forall_mem_append.mp performed
  obtain ⟨r, hr, hend⟩ := linked.split
  obtain ⟨ws, hwssub, hws, hIws, hIr, hfr⟩ := tally.of_running hr hran hrunning (hI s₁ hvalid)
  obtain ⟨z, hzsub, hz, hIz, -, hft⟩ := tally.of_hooks hend hstopped hstops hIr
  refine ⟨s₁, n, ws ++ [z], hvalid, hiteration, hwssub.append hzsub, ?_, ?_, ?_⟩
  · rw [List.map_append, hws, List.map_singleton, hz, beats_eq]
    simp only [hooksAt, List.map_cons, List.map_append, List.map_nil, List.cons_append]
  · exact List.forall_mem_append.mpr ⟨hIws, List.forall_mem_singleton.mpr hIz⟩
  · rw [List.foldl_append, List.foldl_cons, List.foldl_nil, hft, hfr]

end Tally
end Geodescent.Solver
