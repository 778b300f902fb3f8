import Geodescent.Criterion.Ask
import Geodescent.Proofs.Criterion.Tree

/-! What the memory of nodes goes through while a tree is asked: what renewing a tree, checking an
atom and concluding an answer change, and which nodes they leave alone. -/
namespace Geodescent

/-- What a node gives account of: its reason and the iteration since which it holds. -/
def NodeMemory.account {α : Type} (m : NodeMemory α) : String × Int := (m.reason, m.since)

def NodeMemory.opening {α : Type} (k : Int) (m : NodeMemory α) : String × Int :=
  if k = 0 then ("", -1) else m.account

theorem NodeMemory.opening_succ {α : Type} (m : NodeMemory α) (k : Nat) :
    m.opening (Int.ofNat (k + 1)) = m.account :=
  if_neg (Int.ofNat_ne_zero.mpr (Nat.succ_ne_zero k))

namespace Criterion
variable {ε α : Type} {j j' : Judging ε α} {k : Int} {i : Nat}

def renewed (k : Int) (c : Criterion ε α) (j : Judging ε α) : Judging ε α :=
  if k = 0 then renew c j else j

theorem nodes_revise (id : Nat) (f : NodeMemory α → NodeMemory α) (j : Judging ε α) (i : Nat) :
    (j.revise id f).nodes.get i = if id = i then f (j.nodes.get id) else j.nodes.get i :=
  Store.get_set _ _ _ _

theorem nodes_revise_of_ne {id : Nat} (h : i ≠ id) (f : NodeMemory α → NodeMemory α)
    (j : Judging ε α) : (j.revise id f).nodes.get i = j.nodes.get i :=
  Store.get_set_of_ne _ h.symm _

theorem nodes_revise_self (id : Nat) (f : NodeMemory α → NodeMemory α) (j : Judging ε α) :
    (j.revise id f).nodes.get id = f (j.nodes.get id) := Store.get_set_self _ _ _

section Renew

theorem renewEach_together {I : Judging ε α → Judging ε α → Prop} {cs : List (Criterion ε α)}
    (h : ∀ c ∈ cs, ∀ j j', I j j' → I (renew c j) (renew c j')) :
    ∀ j j', I j j' → I (renewEach cs j) (renewEach cs j') := by
  induction cs with
  | nil => exact fun j j' hj => hj
  | cons c cs ih =>
    intro j j' hj
    exact ih (fun c hc => h c (List.mem_cons_of_mem _ hc)) _ _ (h c List.mem_cons_self j j' hj)

theorem renew_together {I : Judging ε α → Judging ε α → Prop} (c : Criterion ε α)
    (clear : ∀ d ∈ c.nodes, ∀ j j', I j j' → I (j.clear d.id) (j'.clear d.id))
    (restart : ∀ id check, .atom id check ∈ c.nodes → ∀ j j', I j j' →
      I (check.restart id j) (check.restart id j')) :
    ∀ j j', I j j' → I (renew c j) (renew c j') := by
  induction c using induct with
  | node c ih =>
    have members : ∀ e ∈ c.children, ∀ j j', I j j' → I (renew e j) (renew e j') := by
      intro e he
      have hin : ∀ d ∈ e.nodes, d ∈ c.nodes := fun d hd => mem_nodes.mpr (.inr ⟨e, he, hd⟩)
      exact ih e he (fun d hd => clear d (hin d hd)) fun id check hd => restart id check (hin _ hd)
    intro j j' hj
    have hclear := clear c (mem_nodes_self c) j j' hj
    cases c with
    | atom id check => exact restart id check (mem_nodes_self _) _ _ hclear
    | all id cs => exact renewEach_together members _ _ hclear
    | any id cs => exact renewEach_together members _ _ hclear

theorem renewEach_preserves {I : Judging ε α → Prop} {cs : List (Criterion ε α)}
    (h : ∀ c ∈ cs, ∀ j, I j → I (renew c j)) (j : Judging ε α) (hj : I j) :
    I (renewEach cs j) :=
  renewEach_together (I := fun j _ => I j) (fun c hc j _ => h c hc j) j j hj

theorem renew_preserves {I : Judging ε α → Prop} (c : Criterion ε α)
    (clear : ∀ d ∈ c.nodes, ∀ j, I j → I (j.clear d.id))
    (restart : ∀ id check, .atom id check ∈ c.nodes → ∀ j, I j → I (check.restart id j))
    (j : Judging ε α) (hj : I j) : I (renew c j) :=
  renew_together (I := fun j _ => I j) c (fun d hd j _ => clear d hd j)
    (fun id check hd j _ => restart id check hd j) j j hj

theorem nodes_restart (check : Check ε α) (id : Nat) (j : Judging ε α) :
    (i ≠ id → (check.restart id j).nodes.get i = j.nodes.get i) ∧
      ((check.restart id j).nodes.get i).account = (j.nodes.get i).account := by
  cases check with
  | elapsed seconds clock =>
    refine ⟨fun h => nodes_revise_of_ne h _ j, ?_⟩
    change ((j.revise id _).nodes.get i).account = _
    rw [nodes_revise]
    split
    · subst id
      rfl
    · rfl
  | _ => exact ⟨fun _ => rfl, rfl⟩

theorem env_restart (check : Check ε α) (id : Nat) (j : Judging ε α) :
    (check.restart id j).env = j.env := by
  cases check with
  | _ => rfl

theorem env_renew (c : Criterion ε α) (j : Judging ε α) : (renew c j).env = j.env :=
  renew_preserves (I := fun j' => j'.env = j.env) c (fun _ _ _ hj' => hj')
    (fun id check _ j' hj' => (env_restart check id j').trans hj') j rfl

theorem renewEach_reaches {I : Judging ε α → Judging ε α → Prop} {d : Criterion ε α}
    {cs : List (Criterion ε α)} (hd : d ∈ cs)
    (own : ∀ j j', j'.env = j.env → I (renew d j) (renew d j'))
    (others : ∀ c ∈ cs, ∀ j j', I j j' → I (renew c j) (renew c j')) :
    ∀ j j', j'.env = j.env → I (renewEach cs j) (renewEach cs j') := by
  induction cs with
  | nil => exact absurd hd List.not_mem_nil
  | cons c cs ih =>
    have later := fun e he => others e (List.mem_cons_of_mem c he)
    intro j j' henv
    rcases List.mem_cons.mp hd with rfl | hd
    · exact renewEach_together later _ _ (own j j' henv)
    · have hrenewed : (renew c j').env = (renew c j).env := by rw [env_renew, env_renew, henv]
      exact ih hd later _ _ hrenewed

theorem renew_reaches {I : Judging ε α → Judging ε α → Prop} {c d : Criterion ε α}
    (hd : d ∈ c.nodes) (own : ∀ j j', j'.env = j.env → I (renew d j) (renew d j'))
    (clear : ∀ e ∈ c.nodes, ∀ j j', I j j' → I (j.clear e.id) (j'.clear e.id))
    (restart : ∀ id check, .atom id check ∈ c.nodes → ∀ j j', I j j' →
      I (check.restart id j) (check.restart id j')) :
    ∀ j j', j'.env = j.env → I (renew c j) (renew c j') := by
  induction c using induct with
  | node c ih =>
    have hin : ∀ e ∈ c.children, e.nodes ⊆ c.nodes := fun e he => nodes_subset (mem_nodes_child he)
    rcases mem_nodes.mp hd with rfl | ⟨f, hf, hdf⟩
    · exact own
    have member := ih f hf hdf (fun e he => clear e (hin f hf he)) fun id check he =>
      restart id check (hin f hf he)
    have others : ∀ e ∈ c.children, ∀ j j', I j j' → I (renew e j) (renew e j') := fun e he =>
      renew_together e (fun g hg => clear g (hin e he hg)) fun id check hg =>
        restart id check (hin e he hg)
    intro j j' henv
    cases c with
    | atom id check => exact absurd hf List.not_mem_nil
    | all id cs => exact renewEach_reaches hf member others (j.clear id) (j'.clear id) henv
    | any id cs => exact renewEach_reaches hf member others (j.clear id) (j'.clear id) henv

theorem nodes_renewed_of_not_mem {c : Criterion ε α} (h : i ∉ c.ids) :
    (renewed k c j).nodes.get i = j.nodes.get i := by
  have hne : ∀ d ∈ c.nodes, i ≠ d.id := fun d hd hi => h (hi ▸ id_mem_ids hd)
  unfold renewed
  split
  · refine renew_preserves (I := fun j' => j'.nodes.get i = j.nodes.get i) c ?_ ?_ j rfl
    · exact fun d hd j' hj' => (nodes_revise_of_ne (hne d hd) _ j').trans hj'
    · exact fun id check hd j' hj' => ((nodes_restart check id j').1 (hne _ hd)).trans hj'
  · rfl

theorem account_clear (id : Nat) (j : Judging ε α) (h : (j.nodes.get i).account = ("", -1)) :
    ((j.clear id).nodes.get i).account = ("", -1) := by
  rw [Judging.clear, nodes_revise]
  split
  · rfl
  · exact h

theorem account_renew (c : Criterion ε α) (j : Judging ε α) :
    ((renew c j).nodes.get c.id).account = ("", -1) := by
  let I : Judging ε α → Prop := fun j' => (j'.nodes.get c.id).account = ("", -1)
  have clear : ∀ (d : Criterion ε α) j', I j' → I (j'.clear d.id) :=
    fun d j' hj' => account_clear d.id j' hj'
  have restart : ∀ id (check : Check ε α) j', I j' → I (check.restart id j') :=
    fun id check j' hj' => (nodes_restart check id j').2.trans hj'
  have own : I (j.clear c.id) := by
    change ((j.revise c.id _).nodes.get c.id).account = _
    rw [nodes_revise_self]
    rfl
  have members : ∀ e ∈ c.children, ∀ j', I j' → I (renew e j') := fun e _ =>
    renew_preserves e (fun d _ => clear d) fun id check _ => restart id check
  cases c with
  | atom id check => exact restart id check _ own
  | all id cs => exact renewEach_preserves members _ own
  | any id cs => exact renewEach_preserves members _ own

theorem account_renew_of_mem {c d : Criterion ε α} (hd : d ∈ c.nodes) (j : Judging ε α) :
    ((renew c j).nodes.get d.id).account = ("", -1) := by
  let I : Judging ε α → Judging ε α → Prop := fun j _ => (j.nodes.get d.id).account = ("", -1)
  exact renew_reaches (I := I) hd (fun j _ _ => account_renew d j)
    (fun e _ j _ hj => account_clear e.id j hj)
    (fun id check _ j _ hj => (nodes_restart check id j).2.trans hj) j j rfl

theorem account_renewed (c : Criterion ε α) :
    ((renewed k c j).nodes.get c.id).account = (j.nodes.get c.id).opening k := by
  unfold renewed NodeMemory.opening
  split
  · exact account_renew c j
  · rfl

theorem opening_renewed (c : Criterion ε α) :
    ((renewed k c j).nodes.get i).opening k = (j.nodes.get i).opening k := by
  unfold renewed NodeMemory.opening
  split
  · rfl
  · rfl

end Renew

theorem conclude_eq_ok_iff {id : Nat} {finding : Check.Finding α} {b : Bool} :
    conclude id k finding j = .ok b j' ↔
      (∃ reason, finding = Check.told reason ∧ b = true ∧ j' = j.hold id k reason) ∨
        (finding = none ∧ b = false ∧ j' = j.lapse id) := by
  rcases finding with _ | fault | reason
  · constructor
    · rintro ⟨⟩
      exact .inr ⟨rfl, rfl, rfl⟩
    · rintro (⟨reason, h, -⟩ | ⟨-, rfl, rfl⟩)
      · cases h
      · rfl
  · constructor
    · intro h
      cases h
    · rintro (⟨reason, h, -⟩ | ⟨h, -⟩)
      · cases h
      · cases h
  · constructor
    · rintro ⟨⟩
      exact .inl ⟨reason, rfl, rfl, rfl⟩
    · rintro (⟨r, h, rfl, rfl⟩ | ⟨h, -⟩)
      · cases h
        rfl
      · cases h

section Test
variable [Scalar α]

theorem test_custom {kind shown : String} {test : State α → Int → Asking ε α (Option String)}
    {p : Problem ε α} {s : State α} {answer : Answer α (Option String)}
    (h : test s k j.env = settled answer j.env) (id : Nat) :
    (Check.custom kind shown test).test id p s k j = settled (answer.map (·.map .ok)) j := by
  have htest : test s k ((Judging.surroundings ε α).get j) = settled answer j.env := h
  cases answer with
  | error e => exact bind_of_error (Part.run_of_error _ htest)
  | ok reason => exact bind_of_ok (Part.run_of_ok _ htest)

theorem nodes_test {check : Check ε α} {id : Nat} {p : Problem ε α} {s : State α}
    {finding : Check.Finding α} (h : check.test id p s k j = .ok finding j') :
    (i ≠ id → j'.nodes.get i = j.nodes.get i) ∧
      (j'.nodes.get i).account = (j.nodes.get i).account := by
  cases check with
  | cap n =>
    cases h
    exact ⟨fun _ => rfl, rfl⟩
  | gradientNorm threshold =>
    obtain ⟨-, rfl⟩ := settled_eq_ok_iff.mp h
    exact ⟨fun _ => rfl, rfl⟩
  | change threshold =>
    obtain ⟨-, rfl⟩ := settled_eq_ok_iff.mp h
    exact ⟨fun _ => rfl, rfl⟩
  | elapsed seconds clock =>
    obtain ⟨_, m, hg, ht⟩ := sequence_eq_ok_iff.mp h
    cases hg
    rcases hs : (j.nodes.get id).started with _ | start
    · -- the timer starts now, which nothing but the node itself sees
      simp only [hs] at ht
      cases ht
      refine ⟨fun hi => nodes_revise_of_ne hi _ j, ?_⟩
      rw [nodes_revise]
      split
      · subst id
        rfl
      · rfl
    · simp only [hs] at ht
      cases ht
      exact ⟨fun _ => rfl, rfl⟩
  | flag shown probe =>
    obtain ⟨_, m, hg, ht⟩ := sequence_eq_ok_iff.mp h
    cases hg
    obtain ⟨raised, -, hf⟩ := settled_bind_eq_ok_iff.mp ht
    cases hf
    exact ⟨fun _ => rfl, rfl⟩
  | custom kind shown test =>
    obtain ⟨reason, m, hr, hf⟩ := sequence_eq_ok_iff.mp h
    cases hf
    obtain ⟨env, -, rfl⟩ := (Part.run_eq_ok_iff _).mp hr
    exact ⟨fun _ => rfl, rfl⟩
  | value d => cases h

end Test
end Criterion
end Geodescent
