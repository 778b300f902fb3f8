import Geodescent.Proofs.Criterion.Bound
import Geodescent.Proofs.Criterion.Lockstep

/-! Trees that look at nothing but the run: their answer depends neither on what their nodes remember
nor on the surroundings, and asking them leaves the surroundings alone. Such trees can be combined
without one of them noticing the other. -/
namespace Geodescent
variable {ε α : Type}

/-- A check that looks at nothing but the options and the iteration. -/
def Check.Plain : Check ε α → Prop
  | .cap _ | .gradientNorm _ | .change _ => True
  | .custom _ _ test =>
    ∃ find : State α → Int → Answer α (Option String), ∀ s k, test s k = settled (find s k)
  | .elapsed .. | .flag .. | .value _ => False

theorem Check.test_of_plain [Scalar α] {check : Check ε α} (plain : check.Plain)
    (p : Problem ε α) (s : State α) (k : Int) :
    ∃ finding, ∀ id j, check.test id p s k j = settled finding j := by
  cases check with
  | cap n => exact ⟨.ok _, fun _ _ => rfl⟩
  | gradientNorm threshold => exact ⟨smallGradient threshold p s k, fun _ _ => rfl⟩
  | change threshold => exact ⟨smallChange threshold s k, fun _ _ => rfl⟩
  | custom kind shown test =>
    obtain ⟨find, htest⟩ := plain
    exact ⟨(find s k).map (·.map .ok), fun id j => Criterion.test_custom (by rw [htest]) id⟩
  | elapsed | flag | value => exact absurd plain id

namespace Criterion

def Plain (c : Criterion ε α) : Prop := ∀ x ∈ c.atoms, x.2.Plain

theorem Plain.of_children {c : Criterion ε α} (combined : c.atom? = none)
    (h : ∀ e ∈ c.children, e.Plain) : c.Plain := by
  intro x hx
  rw [atoms_eq, List.filterMap_cons_none combined, List.filterMap_nil, List.append_nil] at hx
  obtain ⟨e, he, hxe⟩ := List.mem_flatMap.mp hx
  exact h e he x hxe

section Ask
variable [Scalar α] {p : Problem ε α} {s : State α} {k : Int} {c d : Criterion ε α}

def Within (env env' : ε) (j j' : Judging ε α) : Prop := j.env = env ∧ j'.env = env'

variable {env env' : ε} {j j' : Judging ε α}

omit [Scalar α] in
theorem parallel_conclude {find : Store (NodeMemory α) → Check.Finding α} (hfind : d.Finds find)
    (h : Within env env' j j') :
    Parallel (Within env env') (Within env env') (conclude d.id k (find j.nodes) j)
      (conclude d.id k (find j'.nodes) j') := by
  -- the two memories may give different reasons for one answer
  have held (id : Nat) (reason reason' : String) :
      Parallel (Within env env') (Within env env') (conclude id k (Check.told reason) j)
        (conclude id k (Check.told reason') j') := .ok true h
  have lapsed (id : Nat) :
      Parallel (Within env env') (Within env env') (conclude id k none j)
        (conclude id k none j') := .ok false h
  cases d with
  | atom id check =>
    obtain ⟨finding, rfl⟩ := hfind
    match finding with
    | some (.ok reason) => exact held id reason reason
    | some (.error fault) => exact .error fault h
    | none => exact lapsed id
  | all id members =>
    obtain ⟨answers, rfl⟩ := hfind
    simp only [allFinding]
    split
    · exact held id _ _
    · exact lapsed id
  | any id members =>
    obtain ⟨answers, rfl⟩ := hfind
    simp only [anyFinding]
    split
    · exact held id _ _
    · exact lapsed id

theorem lockstep_plain (plain : c.Plain) :
    Lockstep p s k (Within env env') (fun _ _ => True) c where
  renewed d _ j j' h := by
    unfold renewed
    split
    · exact ⟨(env_renew d j).trans h.1, (env_renew d j').trans h.2⟩
    · exact h
  tested x hx := by
    obtain ⟨finding, htest⟩ := Check.test_of_plain (plain x hx) p s k
    refine .entering (fun j j' h => ?_) fun _ _ _ => trivial
    rw [htest, htest]
    exact Twin.settled finding (fun _ _ h => h) j j' h
  concluded _ _ _ hfind _ _ h := parallel_conclude hfind h
  answered _ _ _ := trivial

theorem parallel_ask (plain : c.Plain) (j j' : Judging ε α) :
    Parallel (Within j.env j'.env) (Within j.env j'.env) (ask p s k c j) (ask p s k c j') := by
  have lockstep : Lockstep p s k (Within j.env j'.env) (fun _ _ => True) c := lockstep_plain plain
  have key := (lockstep.ask (lockstep.renewed c (mem_nodes_self c)) j j' ⟨rfl, rfl⟩).2
  rw [← outcome_ask]
  exact key

theorem env_ask (plain : c.Plain) (j : Judging ε α) : (left (ask p s k c j)).env = j.env :=
  (parallel_ask plain j j).left.1

end Ask

section Answers
variable [Scalar α] {p : Problem ε α} {s : State α} {k : Nat} {c : Criterion ε α} {b : Bool}
  {members : List (Criterion ε α)} {bs : List Bool}

theorem Answers.ask (h : Answers p s k c b) (plain : c.Plain) (j : Judging ε α) :
    ∃ es j', Narrated.ask p s (Int.ofNat k) c j = (es, .ok b j') := by
  obtain ⟨j₀, t, es, hask⟩ := h
  have hparallel := parallel_ask (p := p) (s := s) (k := Int.ofNat k) plain j₀ j
  rw [← outcome_ask, Scribe.outcome, hask] at hparallel
  obtain ⟨j', hj, -⟩ := hparallel.of_ok
  exact ⟨_, j', Prod.ext rfl hj⟩

theorem Answers.askEach (plain : ∀ e ∈ members, e.Plain)
    (h : List.Forall₂ (Answers p s k) members bs) (j : Judging ε α) :
    ∃ es j', Narrated.askEach p s (Int.ofNat k) members j = (es, .ok bs j') := by
  induction h generalizing j with
  | nil => exact ⟨[], j, rfl⟩
  | cons hb _ ih =>
    obtain ⟨hc, hcs⟩ := List.forall_mem_cons.mp plain
    obtain ⟨es, m, hm⟩ := hb.ask hc j
    obtain ⟨fs, j', hj'⟩ := ih hcs m
    exact ⟨_, j', (askEach_cons_eq_ok_iff p s _).mpr ⟨_, m, _, es, fs, hm, hj', rfl, rfl⟩⟩

variable {d : Criterion ε α} {b' : Bool}

theorem Answers.either (hc : Answers p s k c b) (hd : Answers p s k d b') (plain : c.Plain)
    (plain' : d.Plain) (id : Nat) : Answers p s k (.any id [c, d]) (b || b') := by
  have ⟨j, _⟩ := hc
  have members : ∀ e ∈ [c, d], e.Plain :=
    List.forall_mem_cons.mpr ⟨plain, List.forall_mem_singleton.mpr plain'⟩
  obtain ⟨es, m, hm⟩ := Answers.askEach members (.cons hc (.cons hd .nil))
    (renewed (Int.ofNat k) (.any id [c, d]) j)
  have hconclude : ∃ j', conclude id (Int.ofNat k) (anyFinding [c, d] m.nodes [b, b']) m =
      .ok (b || b') j' := by
    cases b with
    | true => exact ⟨_, rfl⟩
    | false =>
      cases b' with
      | true => exact ⟨_, rfl⟩
      | false => exact ⟨_, rfl⟩
  obtain ⟨j', hj'⟩ := hconclude
  refine ⟨j, j', es ++ [.answered id (.ok (b || b'))], ?_⟩
  rw [Narrated.ask]
  exact (gather_eq_ok_iff _).mpr ⟨[b, b'], m, es, hm, hj', rfl⟩

theorem Answers.both {id : Nat} (h : Answers p s k (.all id [c, d]) true) :
    Answers p s k c true ∧ Answers p s k d true := by
  obtain ⟨bs, hbs, hall⟩ := answers_all h
  have held : ∀ e ∈ [c, d], Answers p s k e true := by
    intro e he
    obtain ⟨b, hb, hanswer⟩ := exists_mem_right hbs he
    rw [beq_iff_eq.mp (List.all_eq_true.mp hall.symm b hb)] at hanswer
    exact hanswer
  exact ⟨held c List.mem_cons_self, held d (List.mem_cons_of_mem c (List.mem_singleton_self d))⟩

end Answers
end Criterion
end Geodescent
