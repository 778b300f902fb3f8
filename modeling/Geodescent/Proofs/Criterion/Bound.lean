import Mathlib.Data.ENat.Lattice
import Mathlib.Data.List.Forall2
import Geodescent.Options
import Geodescent.Proofs.Criterion.Inquiry

/-! The bound that a tree of criteria sets to the number of iterations. From its bound on a tree holds
whatever its other atoms say, and a tree of nothing but caps holds from there on only. -/
namespace Geodescent.Criterion
variable {ε α : Type}

mutual
/-- The iteration from which a tree holds because of its caps. -/
noncomputable def bound : Criterion ε α → ℕ∞
  | .atom _ (.cap n) => n
  | .atom _ _ => ⊤
  | .all _ members => boundAll members
  | .any _ members => boundAny members

noncomputable def boundAll : List (Criterion ε α) → ℕ∞
  | [] => 0
  | c :: cs => max (bound c) (boundAll cs)

noncomputable def boundAny : List (Criterion ε α) → ℕ∞
  | [] => ⊤
  | c :: cs => min (bound c) (boundAny cs)
end

theorem boundAll_le_iff {cs : List (Criterion ε α)} {k : ℕ∞} :
    boundAll cs ≤ k ↔ ∀ c ∈ cs, c.bound ≤ k := by
  induction cs with
  | nil => simp [boundAll]
  | cons c cs ih => rw [boundAll, max_le_iff, ih, List.forall_mem_cons]

theorem boundAny_le_iff {cs : List (Criterion ε α)} {k : Nat} :
    boundAny cs ≤ (k : ℕ∞) ↔ ∃ c ∈ cs, c.bound ≤ k := by
  induction cs with
  | nil => simp [boundAny]
  | cons c cs ih => rw [boundAny, min_le_iff, ih, List.exists_mem_cons_iff (bound · ≤ (k : ℕ∞))]

/-- A tree whose atoms are all caps. -/
def Capped (c : Criterion ε α) : Prop := ∀ x ∈ c.atoms, ∃ n, x.2 = .cap n

instance (check : Check ε α) : Decidable (∃ n, check = .cap n) :=
  match check with
  | .cap n => .isTrue ⟨n, rfl⟩
  | .gradientNorm _ | .change _ | .elapsed .. | .flag .. | .custom .. | .value _ => .isFalse nofun

instance (c : Criterion ε α) : Decidable c.Capped :=
  inferInstanceAs (Decidable (∀ x ∈ c.atoms, ∃ n, x.2 = .cap n))

theorem Capped.child {c e : Criterion ε α} (h : c.Capped) (he : e ∈ c.children) : e.Capped :=
  fun x hx => h x (atoms_subset (mem_nodes_child he) hx)

section Ask
variable [Scalar α] {p : Problem ε α} {s : State α} {k : Nat} {id : Nat} {b : Bool}
  {members : List (Criterion ε α)} {check : Check ε α}

/-- What a tree answers in iteration `k` when it does not fail. -/
def Answers (p : Problem ε α) (s : State α) (k : Nat) (c : Criterion ε α) (b : Bool) : Prop :=
  ∃ j j' es, Narrated.ask p s (Int.ofNat k) c j = (es, .ok b j')

omit [Scalar α] in
theorem isSome_of_conclude {k : Int} {finding : Check.Finding α} {j j' : Judging ε α}
    (h : conclude id k finding j = .ok b j') : b = finding.isSome := by
  rcases conclude_eq_ok_iff.mp h with ⟨reason, rfl, rfl, -⟩ | ⟨rfl, rfl, -⟩
  · rfl
  · rfl

theorem answers_askEach {cs : List (Criterion ε α)} {bs : List Bool} {j j' : Judging ε α}
    {es : List (Event ε α)} (h : Narrated.askEach p s (Int.ofNat k) cs j = (es, .ok bs j')) :
    List.Forall₂ (Answers p s k) cs bs := by
  induction cs generalizing j bs es with
  | nil =>
    rw [Narrated.askEach] at h
    obtain ⟨rfl, -, -⟩ := Scribe.pure_eq_ok_iff.mp h
    exact .nil
  | cons c cs ih =>
    obtain ⟨b, m, rest, fs, gs, hc, hcs, rfl, -⟩ := (askEach_cons_eq_ok_iff p s _).mp h
    exact .cons ⟨j, m, fs, hc⟩ (ih hcs)

theorem answers_cap {n : Nat} (h : Answers p s k (.atom id (.cap n)) b) : b = decide (n ≤ k) := by
  obtain ⟨j, j', es, h⟩ := h
  rw [Narrated.ask] at h
  obtain ⟨finding, m, fs, hasked, hconclude, -⟩ := (gather_eq_ok_iff _).mp h
  obtain ⟨htest, -⟩ := (test_eq_ok_iff p s _).mp hasked
  cases htest
  rw [isSome_of_conclude hconclude]
  by_cases hk : n ≤ k
  · have hle : Int.ofNat n ≤ Int.ofNat k := Int.ofNat_le.mpr hk
    rw [if_pos hle, decide_eq_true hk]
    rfl
  · have hlt : ¬ Int.ofNat n ≤ Int.ofNat k := fun h => hk (Int.ofNat_le.mp h)
    rw [if_neg hlt, decide_eq_false hk]
    rfl

theorem answers_members {c : Criterion ε α} {sound : List Bool → Bool}
    {finding : Store (NodeMemory α) → List Bool → Check.Finding α}
    (hask : Narrated.ask p s (Int.ofNat k) c = Narrated.gather (Int.ofNat k) c
      (Narrated.askEach p s (Int.ofNat k) members) finding)
    (hsound : ∀ nodes bs, (finding nodes bs).isSome = sound bs) (h : Answers p s k c b) :
    ∃ bs, List.Forall₂ (Answers p s k) members bs ∧ b = sound bs := by
  obtain ⟨j, j', es, h⟩ := h
  rw [hask] at h
  obtain ⟨bs, m, fs, hasked, hconclude, -⟩ := (gather_eq_ok_iff _).mp h
  refine ⟨bs, answers_askEach hasked, ?_⟩
  rw [isSome_of_conclude hconclude, hsound]

theorem answers_all (h : Answers p s k (.all id members) b) :
    ∃ bs, List.Forall₂ (Answers p s k) members bs ∧ b = bs.all (· == true) := by
  refine answers_members (by rw [Narrated.ask]) (fun nodes bs => ?_) h
  unfold allFinding
  cases bs.all (· == true)
  · rfl
  · rfl

theorem answers_any (h : Answers p s k (.any id members) b) :
    ∃ bs, List.Forall₂ (Answers p s k) members bs ∧ b = bs.any (· == true) := by
  refine answers_members (by rw [Narrated.ask]) (fun nodes bs => ?_) h
  unfold anyFinding
  cases bs.any (· == true)
  · rfl
  · rfl

theorem exists_mem_right {β γ : Type} {R : β → γ → Prop} {bs : List β} {cs : List γ}
    (h : List.Forall₂ R bs cs) {b : β} (hb : b ∈ bs) : ∃ c ∈ cs, R b c := by
  induction h with
  | nil => exact absurd hb List.not_mem_nil
  | cons hbc _ ih =>
    rcases List.mem_cons.mp hb with rfl | hb
    · exact ⟨_, List.mem_cons_self, hbc⟩
    · obtain ⟨c, hc, hr⟩ := ih hb
      exact ⟨c, List.mem_cons_of_mem _ hc, hr⟩

theorem exists_mem_left {β γ : Type} {R : β → γ → Prop} {bs : List β} {cs : List γ}
    (h : List.Forall₂ R bs cs) {c : γ} (hc : c ∈ cs) : ∃ b ∈ bs, R b c :=
  exists_mem_right (R := flip R) h.flip hc

theorem answers_of_bound_le {c : Criterion ε α} (h : Answers p s k c b) (hle : c.bound ≤ k) :
    b = true := by
  induction c using induct generalizing b with
  | node c ih =>
    cases c with
    | atom id check =>
      cases check with
      | cap n =>
        rw [answers_cap h]
        exact decide_eq_true (Nat.cast_le.mp hle)
      -- other atoms have no bound
      | _ => exact absurd (top_le_iff.mp hle) (ENat.natCast_ne_top k)
    | all id members =>
      obtain ⟨bs, hbs, rfl⟩ := answers_all h
      refine List.all_eq_true.mpr fun b hb => beq_iff_eq.mpr ?_
      obtain ⟨e, he, hanswer⟩ := exists_mem_left hbs hb
      exact ih e he hanswer (boundAll_le_iff.mp hle e he)
    | any id members =>
      obtain ⟨bs, hbs, rfl⟩ := answers_any h
      obtain ⟨e, he, hle⟩ := boundAny_le_iff.mp hle
      obtain ⟨b, hb, hanswer⟩ := exists_mem_right hbs he
      exact List.any_eq_true.mpr ⟨b, hb, beq_iff_eq.mpr (ih e he hanswer hle)⟩

theorem bound_le_of_answers {c : Criterion ε α} (capped : c.Capped) (h : Answers p s k c true) :
    c.bound ≤ k := by
  induction c using induct with
  | node c ih =>
    have members : ∀ e ∈ c.children, Answers p s k e true → e.bound ≤ k := fun e he =>
      ih e he (capped.child he)
    cases c with
    | atom id check =>
      obtain ⟨n, rfl⟩ := capped (id, check) (List.mem_singleton_self _)
      exact Nat.cast_le.mpr (of_decide_eq_true (answers_cap h).symm)
    | all id cs =>
      obtain ⟨bs, hbs, hall⟩ := answers_all h
      refine boundAll_le_iff.mpr fun e he => ?_
      obtain ⟨b, hb, hanswer⟩ := exists_mem_right hbs he
      have htrue : b = true := beq_iff_eq.mp (List.all_eq_true.mp hall.symm b hb)
      rw [htrue] at hanswer
      exact members e he hanswer
    | any id cs =>
      obtain ⟨bs, hbs, hany⟩ := answers_any h
      obtain ⟨b, hb, htrue⟩ := List.any_eq_true.mp hany.symm
      rw [beq_iff_eq.mp htrue] at hb
      obtain ⟨e, he, hanswer⟩ := exists_mem_left hbs hb
      exact boundAny_le_iff.mpr ⟨e, he, members e he hanswer⟩

end Ask

theorem bound_standard [Scalar α] (id : Nat) (flavour : Flavour ε α) :
    (Options.standardCriterion id flavour).1.bound =
      match flavour with
      | .sweep _ => 5000
      | _ => 100 := by
  cases flavour with
  | sweep order => rfl
  | _ => rfl

end Geodescent.Criterion
