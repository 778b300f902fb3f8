import Geodescent.Proofs.Criterion.Call
import Geodescent.Manifold.Euclidean
import Mathlib.Order.Bounds.Defs

/-! The calls of a run. Every node of a tree answers as its atoms do, and remembers since when it has
done so without interruption: `series_law`. -/
namespace Geodescent

def streakStart (f : Nat → Bool) : Nat → Nat
  | 0 => 0
  | k + 1 => if f k then streakStart f k else k + 1

/-- The iterations from which on `f` holds without interruption up to iteration `k`. -/
def unbroken (f : Nat → Bool) (k : Nat) : Set Nat :=
  {j | j ≤ k ∧ ∀ i, j ≤ i → i ≤ k → f i = true}

theorem isLeast_streakStart {f : Nat → Bool} {k : Nat} (h : f k = true) :
    IsLeast (unbroken f k) (streakStart f k) := by
  induction k with
  | zero =>
    refine ⟨⟨Nat.le_refl 0, fun i _ hi => ?_⟩, fun j _ => Nat.zero_le j⟩
    rw [Nat.le_zero.mp hi]
    exact h
  | succ k ih =>
    unfold streakStart
    split
    · -- the streak was on before
      obtain ⟨⟨hle, hon⟩, hleast⟩ := ih ‹_›
      refine ⟨⟨Nat.le_succ_of_le hle, fun i hj hi => ?_⟩, fun j hj => ?_⟩
      · rcases Nat.le_succ_iff.mp hi with hi | rfl
        · exact hon i hj hi
        · exact h
      · rcases Nat.le_succ_iff.mp hj.1 with hjk | rfl
        · exact hleast ⟨hjk, fun i hji hi => hj.2 i hji (Nat.le_succ_of_le hi)⟩
        · exact Nat.le_succ_of_le hle
    · -- the streak begins
      refine ⟨⟨Nat.le_refl _, fun i hj hi => ?_⟩, fun j hj => ?_⟩
      · rw [Nat.le_antisymm hi hj]
        exact h
      · by_contra hlt
        exact ‹¬ f k = true› (hj.2 k (by omega) (Nat.le_succ k))

/-- The calls of a tree in a run: a call in every iteration, with the surroundings and the state of
that iteration, from a memory in which anything may have been left. -/
structure Series (ε α : Type) where
  problem : Problem ε α
  criterion : Criterion ε α
  env : Nat → ε
  state : Nat → State α
  start : Store (NodeMemory α)

namespace Series
variable {ε α : Type} [Scalar α]

/-- What happens in a call that begins with a given memory. -/
def callWith (S : Series ε α) (k : Nat) (nodes : Store (NodeMemory α)) :
    List (Event ε α) × EStateM.Result (Fault α) (Judging ε α) Bool :=
  Criterion.Narrated.ask S.problem (S.state k) (Int.ofNat k) S.criterion ⟨S.env k, nodes⟩

def memory (S : Series ε α) : Nat → Store (NodeMemory α)
  | 0 => S.start
  | k + 1 =>
    match (S.callWith k (S.memory k)).2 with
    | .ok _ j => j.nodes
    | .error _ j => j.nodes

def events (S : Series ε α) (k : Nat) : List (Event ε α) := (S.callWith k (S.memory k)).1

def heard (S : Series ε α) (k : Nat) : Nat → Option String := Geodescent.heard (S.events k)

def truth (S : Series ε α) (k : Nat) (id : Nat) : Bool := (S.heard k id).isSome

def holdsAt (S : Series ε α) (d : Criterion ε α) (k : Nat) : Bool := d.holds (S.truth k)

variable {S : Series ε α} {k m : Nat}

theorem call_ok (calm : ∀ e ∈ S.events k, e.Calm) : ∃ b env,
    S.callWith k (S.memory k) = (S.events k, .ok b ⟨env, S.memory (k + 1)⟩) := by
  unfold events at calm ⊢
  rw [memory]
  rcases h : S.callWith k (S.memory k) with ⟨es, ⟨b, j⟩ | ⟨e, j⟩⟩
  · exact ⟨b, j.env, rfl⟩
  · rw [h] at calm
    exact ((Criterion.blames_ask _ _ _ _).elim h calm).elim

theorem call_spec (distinct : S.criterion.Distinct) (calm : ∀ e ∈ S.events k, e.Calm) :
    ∃ env, S.callWith k (S.memory k) =
        (S.criterion.report (S.heard k),
          .ok (S.holdsAt S.criterion k) ⟨env, S.memory (k + 1)⟩) ∧
      S.events k = S.criterion.report (S.heard k) ∧
      Criterion.Asked (S.heard k) (Int.ofNat k) S.criterion.nodes (S.memory k)
        (S.memory (k + 1)) := by
  obtain ⟨b, env, h⟩ := call_ok calm
  have consistent : Consistent (S.heard k) (S.events k) := Criterion.consistent_ask distinct h
  obtain ⟨hb, hes, asked⟩ := Criterion.ask_ok distinct h consistent
  refine ⟨env, ?_, hes, asked⟩
  rw [h, hes, hb]
  rfl

theorem ask_eq (distinct : S.criterion.Distinct) (calm : ∀ e ∈ S.events k, e.Calm) :
    ∃ env, S.criterion.ask S.problem (S.state k) (Int.ofNat k) ⟨S.env k, S.memory k⟩ =
      .ok (S.holdsAt S.criterion k) ⟨env, S.memory (k + 1)⟩ := by
  obtain ⟨env, hcall, -⟩ := call_spec distinct calm
  refine ⟨env, ?_⟩
  rw [← Criterion.outcome_ask]
  exact congrArg Prod.snd hcall

theorem since_of_noted {t : Nat → Nat → Option String} {d : Criterion ε α}
    (noted : ∀ i ≤ k, Criterion.Noted (t i) (Int.ofNat i) (S.memory i) (S.memory (i + 1)) d) :
    ((S.memory (k + 1)).get d.id).since =
      if d.verdict (t k) then Int.ofNat (streakStart (fun i => d.verdict (t i)) k) else -1 := by
  induction k with
  | zero =>
    rw [(noted 0 (Nat.le_refl 0)).since]
    rfl
  | succ k ih =>
    have before := ih fun i hi => noted i (Nat.le_succ_of_le hi)
    -- this call starts from what the last one left
    rw [(noted (k + 1) (Nat.le_refl _)).since, NodeMemory.opening_succ]
    change (if d.verdict (t (k + 1)) then
      if ((S.memory (k + 1)).get d.id).since < 0 then Int.ofNat (k + 1)
      else ((S.memory (k + 1)).get d.id).since else -1) = _
    rw [before, streakStart]
    cases d.verdict (t k) with
    | true =>
      have hnonneg : ¬ Int.ofNat (streakStart (fun i => d.verdict (t i)) k) < 0 :=
        Int.not_lt.mpr (Int.natCast_nonneg _)
      rw [if_pos rfl, if_neg hnonneg, if_pos rfl]
    | false => rfl

theorem since_eq (distinct : S.criterion.Distinct) (calm : ∀ i ≤ k, ∀ e ∈ S.events i, e.Calm)
    {d : Criterion ε α} (hd : d ∈ S.criterion.nodes) :
    ((S.memory (k + 1)).get d.id).since =
      if S.holdsAt d k then Int.ofNat (streakStart (S.holdsAt d) k) else -1 := by
  refine since_of_noted (t := S.heard) fun i hi => ?_
  obtain ⟨_, -, -, asked⟩ := call_spec distinct (calm i hi)
  exact asked.noted d hd

omit [Scalar α] in
theorem answers_report (t : Nat → Option String) (c : Criterion ε α) :
    (c.report t).filterMap Event.answer? = c.nodes.map fun d => (d.id, d.verdict t) := by
  rw [Criterion.report, List.filterMap_flatMap, List.map_eq_flatMap]
  congr 1
  funext d
  cases d with
  | atom id check => rfl
  | all id members => rfl
  | any id members => rfl

/-- The meaning of a tree in a run: every node answers what its atoms make of it, every atom is
checked once in every call, and every node that holds remembers the start of its streak. -/
theorem series_law (distinct : S.criterion.Distinct)
    (calm : ∀ i ≤ m, ∀ e ∈ S.events i, e.Calm) (hk : k ≤ m) :
    (∃ env, S.criterion.ask S.problem (S.state k) (Int.ofNat k) ⟨S.env k, S.memory k⟩ =
      .ok (S.holdsAt S.criterion k) ⟨env, S.memory (k + 1)⟩) ∧
    (S.events k).filterMap Event.answer? =
      S.criterion.nodes.map (fun d => (d.id, S.holdsAt d k)) ∧
    (S.events k).filterMap Event.atom? = S.criterion.atoms ∧
    (∀ id check finding, .checked id check finding ∈ S.events k →
      finding = .ok ((S.heard k id).map .ok)) ∧
    ∀ d ∈ S.criterion.nodes,
      (S.holdsAt d k = true → ∃ j, ((S.memory (k + 1)).get d.id).since = Int.ofNat j ∧
        IsLeast (unbroken (S.holdsAt d) k) j) ∧
      (S.holdsAt d k = false → ((S.memory (k + 1)).get d.id).since = -1) := by
  have calm₁ : ∀ i ≤ k, ∀ e ∈ S.events i, e.Calm := fun i hi => calm i (Nat.le_trans hi hk)
  obtain ⟨env, hcall, hevents, -⟩ := call_spec distinct (calm k hk)
  refine ⟨ask_eq distinct (calm k hk), ?_, ?_, ?_, fun d hd => ⟨fun h => ?_, fun h => ?_⟩⟩
  · rw [hevents]
    exact answers_report _ _
  · rw [hevents]
    exact (Criterion.checked_ask hcall).once
  · rw [← hevents] at hcall
    exact Criterion.consistent_ask distinct hcall
  · refine ⟨streakStart (S.holdsAt d) k, ?_, isLeast_streakStart h⟩
    rw [since_eq distinct calm₁ hd, if_pos h]
  · rw [since_eq distinct calm₁ hd, h]
    rfl

def light (id : Nat) (on : Bool × Bool → Bool) : Criterion (Bool × Bool) Float :=
  .atom id (.custom "Light" "Light" fun _ _ => do
    let lights ← get
    pure (if on lights then some "The light is on." else none))

def both : Criterion (Bool × Bool) Float := .all 1 [light 2 Prod.fst, light 3 Prod.snd]

def lights : Series (Bool × Bool) Float where
  problem := ⟨Manifold.euclideanOf (.whole 1), fun _ _ => pure 0, .costOnly⟩
  criterion := .any 0 [both, .atom 4 (.cap 3)]
  env k := (k ≠ 1, true)
  state _ := .start .none
  start := Store.empty.set 1 ⟨"An old text.", 5, none⟩

theorem series_law_lights : ∃ j, ((lights.memory 4).get 1).since = Int.ofNat j ∧
    IsLeast (unbroken (lights.holdsAt both) 3) j := by
  have law := series_law (S := lights) (m := 3) (k := 3) (by decide) (by decide) (Nat.le_refl 3)
  exact (law.2.2.2.2 both (by simp [lights, Criterion.nodes, Criterion.nodesEach, both])).1 rfl

end Series
end Geodescent
