import Geodescent.Proofs.Criterion.Bound
import Geodescent.Proofs.Criterion.Lockstep

/-! Trees whose atoms leave the surroundings alone. After the call in iteration 0 every atom finds
what it makes of the surroundings at the time of a call, and timers count from that first call. -/
namespace Geodescent
variable {ε α : Type}

/-- Nodes with the same number are one and the same. -/
def Criterion.Coherent (c : Criterion ε α) : Prop := ∀ d ∈ c.nodes, ∀ e ∈ c.nodes, d.id = e.id → d = e

theorem Criterion.Distinct.coherent {c : Criterion ε α} (h : c.Distinct) : c.Coherent :=
  fun _ hd _ he hid => List.inj_on_of_nodup_map h hd he hid

/-- A check that leaves the surroundings as they are. -/
def Check.Steady : Check ε α → Prop
  | .custom _ _ test => ∀ s k env, ∃ answer, test s k env = settled answer env
  | _ => True

def Criterion.Steady (c : Criterion ε α) : Prop := ∀ i check, .atom i check ∈ c.nodes → check.Steady

/-- The surroundings are `now`, and all timers of a tree started in the surroundings `before`. -/
structure Criterion.Timed (c : Criterion ε α) (before now : ε) (j : Judging ε α) : Prop where
  env : j.env = now
  started : ∀ i seconds clock, .atom i (.elapsed seconds clock) ∈ c.nodes →
    (j.nodes.get i).started = some (clock before)

namespace Criterion.Timed
variable {c : Criterion ε α} {before now : ε} {j : Judging ε α} {k : Int}

theorem revise (h : c.Timed before now j) (id : Nat) {f : NodeMemory α → NodeMemory α}
    (hf : ∀ m, (f m).started = m.started) : c.Timed before now (j.revise id f) where
  env := h.env
  started i seconds clock hi := by
    rw [nodes_revise]
    split
    · subst id
      rw [hf, h.started i seconds clock hi]
    · exact h.started i seconds clock hi

theorem hold (h : c.Timed before now j) (id : Nat) (reason : String) :
    c.Timed before now (j.hold id k reason) := by
  unfold Judging.hold
  exact h.revise id fun _ => rfl

theorem holdUntold (h : c.Timed before now j) (id : Nat) :
    c.Timed before now (j.holdUntold id k) := by
  unfold Judging.holdUntold
  exact h.revise id fun _ => rfl

theorem lapse (h : c.Timed before now j) (id : Nat) : c.Timed before now (j.lapse id) := by
  unfold Judging.lapse
  exact h.revise id fun _ => rfl

theorem restart (coherent : c.Coherent) (h : c.Timed now now j) {i : Nat} {check : Check ε α}
    (hi : .atom i check ∈ c.nodes) : c.Timed now now (check.restart i j) := by
  cases check with
  | elapsed seconds clock =>
    refine ⟨h.env, fun i' seconds' clock' hi' => ?_⟩
    change ((j.revise i fun m => { m with started := some (clock j.env) }).nodes.get i').started = _
    rw [nodes_revise]
    split
    · -- the two timers have the same number, so that they are the same
      subst i'
      cases coherent _ hi _ hi' rfl
      rw [h.env]
    · exact h.started i' seconds' clock' hi'
  | _ => exact h

theorem renewed (coherent : c.Coherent) (hk : k = 0 → before = now) (h : c.Timed before now j)
    {d : Criterion ε α} (hd : d ∈ c.nodes) : c.Timed before now (renewed k d j) := by
  unfold Criterion.renewed
  split
  · obtain rfl := hk ‹_›
    refine renew_preserves d (fun e _ _ h => h.revise e.id fun _ => rfl) ?_ j h
    exact fun i check hi j hj => hj.restart coherent (nodes_subset hd hi)
  · exact h

theorem started_clear {i : Nat} (id : Nat) (j : Judging ε α) :
    ((j.clear id).nodes.get i).started = (j.nodes.get i).started := by
  rw [Judging.clear, nodes_revise]
  split
  · subst i
    rfl
  · rfl

theorem of_renew (coherent : c.Coherent) (henv : j.env = now) :
    c.Timed now now (renew c j) := by
  refine ⟨(env_renew c j).trans henv, fun i seconds clock hi => ?_⟩
  let I : Judging ε α → Judging ε α → Prop := fun j _ =>
    (j.nodes.get i).started = some (clock j.env)
  have own : ∀ j j' : Judging ε α, j'.env = j.env →
      I (renew (.atom i (.elapsed seconds clock)) j) j' := by
    intro j j' _
    change (((j.clear i).revise i fun m => { m with started := some (clock j.env) }).nodes.get
      i).started = some (clock j.env)
    rw [nodes_revise_self]
  have clear : ∀ e ∈ c.nodes, ∀ j j' : Judging ε α, I j j' → I (j.clear e.id) j' :=
    fun e _ j j' hj => (started_clear e.id j).trans hj
  -- another atom may have the same number, but then it is the same timer
  have restart : ∀ id check, .atom id check ∈ c.nodes → ∀ j j' : Judging ε α, I j j' →
      I (check.restart id j) j' := by
    intro id check hid j j' hj
    have htimed : ∀ seconds' clock', check = .elapsed seconds' clock' → id = i →
        clock' = clock := by
      rintro seconds' clock' rfl rfl
      cases coherent _ hid _ hi rfl
      rfl
    cases check with
    | elapsed seconds' clock' =>
      change ((j.revise id fun m => { m with started := some (clock' j.env) }).nodes.get
        i).started = some (clock j.env)
      rw [nodes_revise]
      split
      · rw [htimed seconds' clock' rfl ‹_›]
      · exact hj
    | _ => exact hj
  have hrenew := renew_reaches (I := I) hi own clear restart j j rfl
  change ((renew c j).nodes.get i).started = some (clock (renew c j).env) at hrenew
  rw [hrenew, env_renew, henv]

end Criterion.Timed

section Finding
variable [Scalar α] {p : Problem ε α} {s : State α} {k : Int} {before now : ε} {j : Judging ε α}

def Check.finding (p : Problem ε α) (s : State α) (k : Int) (before now : ε) :
    Check ε α → Except (Fault α) (Check.Finding α)
  | .elapsed seconds clock => .ok (Check.overtime seconds (clock now - clock before))
  | check => given (check.test 0 p s k ⟨now, .empty⟩)

def Event.Found (p : Problem ε α) (s : State α) (k : Int) (before now : ε) : Event ε α → Prop
  | .checked _ check finding => finding = check.finding p s k before now
  | .answered _ _ => True

theorem given_settled {φ σ β : Type} (a : Except φ β) (s : σ) :
    given ((settled a : EStateM φ σ β) s) = a := by
  cases a with
  | error e => rfl
  | ok b => rfl

theorem settled_bind {φ σ β γ : Type} (a : Except φ β) (f : β → γ) (s : σ) :
    (settled a >>= fun b => pure (f b) : EStateM φ σ γ) s = settled (a.map f) s := by
  cases a with
  | error e => rfl
  | ok b => rfl

theorem Check.test_eq {check : Check ε α} {id : Nat} (steady : check.Steady) (henv : j.env = now)
    (hstarted : ∀ seconds clock, check = .elapsed seconds clock →
      (j.nodes.get id).started = some (clock before)) :
    check.test id p s k j = settled (check.finding p s k before now) j := by
  subst henv
  cases check with
  | cap n => rfl
  | gradientNorm threshold =>
    change settled (smallGradient threshold p s k) j = settled (given (settled _ _)) j
    rw [given_settled]
  | change threshold =>
    change settled (smallChange threshold s k) j = settled (given (settled _ _)) j
    rw [given_settled]
  | elapsed seconds clock =>
    have hsome := hstarted seconds clock rfl
    refine sequence_eq_ok_iff.mpr ⟨j, j, rfl, ?_⟩
    simp only [hsome]
    rfl
  | flag shown probe =>
    change (settled (refusing (probe j.env).holds) >>= fun raised => pure _ : Judge ε α _) j =
      settled (given ((settled (refusing (probe j.env).holds) >>= fun raised => pure _ :
        Judge ε α _) _)) j
    rw [settled_bind, settled_bind, given_settled]
  | custom kind shown test =>
    obtain ⟨answer, hanswer⟩ := steady s k j.env
    change _ = settled (given ((Check.custom kind shown test).test id p s k ⟨j.env, .empty⟩)) j
    rw [Criterion.test_custom hanswer, Criterion.test_custom (j := ⟨j.env, .empty⟩) hanswer,
      given_settled]
  | value d => rfl

end Finding

namespace Criterion
variable [Scalar α] {p : Problem ε α} {s : State α} {k : Int} {before now : ε} {j : Judging ε α}
  {c : Criterion ε α}

omit [Scalar α] in
theorem Timed.conclude (h : c.Timed before now j) (id : Nat) (finding : Check.Finding α) :
    c.Timed before now (left (conclude id k finding j)) := by
  match finding with
  | some (.ok reason) => exact h.hold id reason
  | some (.error fault) => exact h.holdUntold id
  | none => exact h.lapse id

theorem lockstep_timed (coherent : c.Coherent) (steady : c.Steady) (hk : k = 0 → before = now) :
    Lockstep p s k (fun j j' => j' = j ∧ c.Timed before now j)
      (fun e e' => e' = e ∧ e.Found p s k before now) c where
  renewed d hd j j' := by
    rintro ⟨rfl, h⟩
    exact ⟨rfl, h.renewed coherent hk hd⟩
  tested := by
    rintro ⟨i, check⟩ hx
    have hi : .atom i check ∈ c.nodes := mem_atoms.mp hx
    have htest : ∀ j, c.Timed before now j →
        check.test i p s k j = settled (check.finding p s k before now) j := fun j h =>
      Check.test_eq (steady i check hi) h.env fun seconds clock hcheck =>
        h.started i seconds clock (hcheck ▸ hi)
    refine .entering ?_ ?_
    · rintro j j' ⟨rfl, h⟩
      rw [htest j' h]
      exact Twin.settled _ (fun _ _ h => h) j' j' ⟨rfl, h⟩
    · rintro j j' ⟨rfl, h⟩
      refine ⟨rfl, ?_⟩
      rw [htest j' h]
      exact given_settled _ j'
  concluded := by
    rintro d hd find - j j' ⟨rfl, h⟩
    have hend := h.conclude (k := k) d.id (find j'.nodes)
    generalize Criterion.conclude d.id k (find j'.nodes) j' = r at hend ⊢
    cases r with
    | ok b t => exact .ok b ⟨rfl, hend⟩
    | error e t => exact .error e ⟨rfl, hend⟩
  answered _ _ _ := ⟨rfl, trivial⟩

theorem timed_ask (coherent : c.Coherent) (steady : c.Steady) (hk : k = 0 → before = now)
    (henv : j.env = now) (hj : k ≠ 0 → c.Timed before now j) :
    (∀ e ∈ (Narrated.ask p s k c j).1, e.Found p s k before now) ∧
      c.Timed before now (left (Narrated.ask p s k c j).2) := by
  have opening : ∀ j j' : Judging ε α,
      (j' = j ∧ j.env = now ∧ (k ≠ 0 → c.Timed before now j)) →
        renewed k c j' = renewed k c j ∧ c.Timed before now (renewed k c j) := by
    rintro j _ ⟨rfl, henv, hj⟩
    refine ⟨rfl, ?_⟩
    unfold renewed
    split
    · obtain rfl := hk ‹_›
      exact .of_renew coherent henv
    · exact hj ‹_›
  obtain ⟨hevents, hend⟩ :=
    (lockstep_timed coherent steady hk).ask opening j j ⟨rfl, henv, hj⟩
  refine ⟨fun e he => ?_, hend.left.2⟩
  obtain ⟨e', he', hee'⟩ := exists_mem_right hevents he
  exact hee'.2

end Criterion
end Geodescent
