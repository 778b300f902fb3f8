import Geodescent.Proofs.Criterion.Closing
import Geodescent.Proofs.Criterion.Renumber
import Geodescent.Proofs.Criterion.Reuse

/-! Nodes that stand in several places of a tree. In every call such a tree does what the tree does in
which each place has a node of its own, and every node says what all the nodes in its places say:
`sharing_law`. -/
namespace Geodescent

namespace Criterion
variable {ε α : Type} {k : Int} {t : Nat → Option String} {opens opens' : Nat → String × Int}
  {f : Nat → Nat}

theorem holds_renumber (truth : Nat → Bool) (f : Nat → Nat) (c : Criterion ε α) :
    (c.renumber f).holds truth = c.holds fun i => truth (f i) := by
  induction c using induct with
  | node c ih =>
    have members : c.children.map (fun e => (e.renumber f).holds truth) =
        c.children.map (holds fun i => truth (f i)) := List.map_congr_left ih
    cases c with
    | atom id check => rfl
    | all id cs =>
      have hall := congrArg (fun bs : List Bool => bs.all fun b => b) members
      rw [List.all_map, List.all_map] at hall
      rw [renumber, holds, holds, holdsAll_eq_all, holdsAll_eq_all, renumberEach_eq_map,
        List.all_map]
      exact hall
    | any id cs =>
      have hany := congrArg (fun bs : List Bool => bs.any fun b => b) members
      rw [List.any_map, List.any_map] at hany
      rw [renumber, holds, holds, holdsAny_eq_any, holdsAny_eq_any, renumberEach_eq_map,
        List.any_map]
      exact hany

theorem verdict_renumber (t : Nat → Option String) (f : Nat → Nat) (c : Criterion ε α) :
    (c.renumber f).verdict t = c.verdict fun i => t (f i) :=
  holds_renumber _ f c

theorem closing_renumber {c : Criterion ε α} (h : ∀ d ∈ c.nodes, opens (f d.id) = opens' d.id) :
    closing k t opens (c.renumber f) = closing k (fun i => t (f i)) opens' c := by
  induction c using induct with
  | node c ih =>
    have hself : opens (c.renumber f).id = opens' c.id := by
      rw [id_renumber]
      exact h c (mem_nodes_self c)
    have members : closingEach k t opens (c.children.map (renumber f)) =
        closingEach k (fun i => t (f i)) opens' c.children := by
      rw [closingEach_eq_map, closingEach_eq_map, List.map_map]
      exact List.map_congr_left fun e he =>
        ih e he fun d hd => h d (nodes_subset (mem_nodes_child he) hd)
    have hcause : cause k t opens (c.renumber f) = cause k (fun i => t (f i)) opens' c := by
      have hverdict := verdict_renumber t f c
      cases c with
      | atom id check => rfl
      | all id cs =>
        rw [children_all] at members
        rw [renumber, renumberEach_eq_map] at hverdict ⊢
        rw [cause, cause, hverdict, members]
      | any id cs =>
        have hanswers : (cs.map (renumber f)).map (verdict t) = cs.map (verdict fun i => t (f i)) := by
          rw [List.map_map]
          exact List.map_congr_left fun e _ => verdict_renumber t f e
        rw [children_any] at members
        rw [renumber, renumberEach_eq_map] at hverdict ⊢
        rw [cause, cause, hverdict, members, hanswers]
    rw [closing, closing, hcause, hself]

end Criterion

namespace Series
variable {ε α : Type} [Scalar α] {S : Series ε α} {k : Nat}

def Returns (S : Series ε α) (k : Nat) : Prop := ∃ b j,
  S.criterion.ask S.problem (S.state k) (Int.ofNat k) ⟨S.env k, S.memory k⟩ = .ok b j

/-- Every atom comes to something in an iteration: it holds for a reason, or it does not hold. -/
def Conclusive (S : Series ε α) (k : Nat) (t : Nat → Option String) : Prop :=
  ∀ i check, .atom i check ∈ S.criterion.nodes →
    check.finding S.problem (S.state k) (Int.ofNat k) (S.env 0) (S.env k) = .ok ((t i).map .ok)

def opens (S : Series ε α) (k : Nat) (i : Nat) : String × Int :=
  ((S.memory k).get i).opening (Int.ofNat k)

theorem exists_conclusive (coherent : S.criterion.Coherent)
    (each : ∀ i check, .atom i check ∈ S.criterion.nodes → ∃ r : Option String,
      check.finding S.problem (S.state k) (Int.ofNat k) (S.env 0) (S.env k) = .ok (r.map .ok)) :
    ∃ t, S.Conclusive k t := by
  have one : ∀ i, ∃ r : Option String, ∀ check, .atom i check ∈ S.criterion.nodes →
      check.finding S.problem (S.state k) (Int.ofNat k) (S.env 0) (S.env k) = .ok (r.map .ok) := by
    intro i
    by_cases hi : ∃ check, .atom i check ∈ S.criterion.nodes
    · obtain ⟨check, hi⟩ := hi
      obtain ⟨r, hr⟩ := each i check hi
      refine ⟨r, fun check' hi' => ?_⟩
      cases coherent _ hi _ hi' rfl
      exact hr
    · exact ⟨none, fun check hcheck => absurd ⟨check, hcheck⟩ hi⟩
  exact Classical.skolem.mp one

theorem call_of_returns (h : S.Returns k) :
    ∃ b j, S.callWith k (S.memory k) = (S.events k, .ok b j) := by
  obtain ⟨b, j, hask⟩ := h
  rw [← outcome_callWith] at hask
  exact ⟨b, j, Prod.ext rfl hask⟩

theorem returns_of_call {es : List (Event ε α)} {b : Bool} {j : Judging ε α}
    (h : S.callWith k (S.memory k) = (es, .ok b j)) : S.Returns k := by
  refine ⟨b, j, ?_⟩
  rw [← outcome_callWith, h]

theorem conclusive_of_returns (coherent : S.criterion.Coherent) (steady : S.criterion.Steady)
    (h : S.Returns k) : ∃ t, S.Conclusive k t := by
  obtain ⟨b, j, hcall⟩ := call_of_returns h
  have hchecked := Criterion.checked_ask hcall
  have hfound := (timed_call coherent steady k).1
  refine exists_conclusive coherent fun i check hi => ?_
  have hmem : (i, check) ∈ (S.events k).filterMap Event.atom? := by
    rw [hchecked.once]
    exact Criterion.mem_atoms.mpr hi
  obtain ⟨e, he, hatom⟩ := List.mem_filterMap.mp hmem
  cases e with
  | checked id check' finding =>
    cases hatom
    obtain ⟨r, hr⟩ := hchecked.found _ _ _ he
    exact ⟨r, (hfound _ he).symm.trans hr⟩
  | answered id answer => cases hatom

theorem closing_of_consistent {t : Nat → Option String} {es : List (Event ε α)} {b : Bool}
    {j : Judging ε α} (coherent : S.criterion.Coherent)
    (h : S.callWith k (S.memory k) = (es, .ok b j)) (consistent : Consistent t es) :
    b = S.criterion.verdict t ∧ ∀ d ∈ S.criterion.nodes,
      ((S.memory (k + 1)).get d.id).account = Criterion.closing (Int.ofNat k) t (S.opens k) d := by
  have hopens : Int.ofNat k = 0 → ∀ i, S.opens k i = ("", -1) := fun hk i => if_pos hk
  have poised : Criterion.Poised (Int.ofNat k) t (S.opens k) S.criterion
      (Criterion.renewed (Int.ofNat k) S.criterion ⟨S.env k, S.memory k⟩) :=
    Criterion.poised_renewed hopens fun hk d _ => (if_neg hk).symm
  obtain ⟨hb, hclosed⟩ := Criterion.closed_ask coherent (Int.natCast_nonneg k) hopens
    (Criterion.mem_nodes_self _) poised h consistent
  refine ⟨hb, fun d hd => ?_⟩
  rw [memory_succ, h]
  exact hclosed.closed d hd

theorem consistent_of_conclusive {t : Nat → Option String} (coherent : S.criterion.Coherent)
    (steady : S.criterion.Steady) (h : S.Conclusive k t) :
    ∃ b j, S.callWith k (S.memory k) = (S.events k, .ok b j) ∧ Consistent t (S.events k) := by
  have hearing : Criterion.Hearing S.problem (S.state k) (Int.ofNat k) t (S.env 0) (S.env k)
      S.criterion := by
    refine ⟨coherent, steady, fun hk => ?_, h⟩
    rw [Int.ofNat_eq_zero.mp hk]
  have timed : S.criterion.Timed (S.env 0) (S.env k)
      (Criterion.renewed (Int.ofNat k) S.criterion ⟨S.env k, S.memory k⟩) := by
    cases k with
    | zero => exact .of_renew coherent rfl
    | succ k => exact (timed_call coherent steady k).2 (S.env (k + 1))
  obtain ⟨es, b, j, hask, -, consistent⟩ :=
    hearing.ask_returns (Criterion.mem_nodes_self _) timed
  have hevents : S.events k = es := congrArg Prod.fst hask
  rw [hevents]
  exact ⟨b, j, hask, consistent⟩

theorem returns_of_conclusive {t : Nat → Option String} (coherent : S.criterion.Coherent)
    (steady : S.criterion.Steady) (h : S.Conclusive k t) :
    (∃ j, S.criterion.ask S.problem (S.state k) (Int.ofNat k) ⟨S.env k, S.memory k⟩ =
      .ok (S.criterion.verdict t) j) ∧
    ∀ d ∈ S.criterion.nodes, ((S.memory (k + 1)).get d.id).account =
      Criterion.closing (Int.ofNat k) t (S.opens k) d := by
  obtain ⟨b, j, hcall, consistent⟩ := consistent_of_conclusive coherent steady h
  obtain ⟨rfl, hclosing⟩ := closing_of_consistent coherent hcall consistent
  refine ⟨⟨j, ?_⟩, hclosing⟩
  rw [← outcome_callWith, hcall]

section Law
variable {tree : Criterion ε α} {f : Nat → Nat}

def of (S : Series ε α) (tree : Criterion ε α) (start : Store (NodeMemory α)) : Series ε α :=
  { S with criterion := tree, start := start }

variable {start : Store (NodeMemory α)}

omit [Scalar α] in
theorem steady_of_renumber (h : (tree.renumber f).Steady) : tree.Steady :=
  fun i check hi => h (f i) check (Criterion.mem_nodes_renumber f hi)

theorem conclusive_renumber {t : Nat → Option String} (hS : S.criterion = tree.renumber f)
    (h : S.Conclusive k t) : (S.of tree start).Conclusive k fun i => t (f i) := by
  intro i check hi
  refine h (f i) check ?_
  rw [hS]
  exact Criterion.mem_nodes_renumber f hi

theorem conclusive_of_renumber {t : Nat → Option String} (coherent : S.criterion.Coherent)
    (hS : S.criterion = tree.renumber f) (h : (S.of tree start).Conclusive k t) :
    ∃ t, S.Conclusive k t := by
  refine exists_conclusive coherent fun i check hi => ?_
  rw [hS, Criterion.nodes_renumber] at hi
  obtain ⟨d, hd, hatom⟩ := List.mem_map.mp hi
  cases d with
  | atom id _ =>
    cases hatom
    exact ⟨t id, h id check hd⟩
  | all id members => cases hatom
  | any id members => cases hatom

theorem agrees_step {t : Nat → Option String} (hS : S.criterion = tree.renumber f)
    (distinct : tree.Distinct) (coherent : S.criterion.Coherent) (steady : S.criterion.Steady)
    (h : S.Conclusive k t)
    (before : ∀ d ∈ tree.nodes, S.opens k (f d.id) = (S.of tree start).opens k d.id) :
    ∀ d ∈ tree.nodes, ((S.memory (k + 1)).get (f d.id)).account =
      (((S.of tree start).memory (k + 1)).get d.id).account := by
  have steady' : tree.Steady := steady_of_renumber (hS ▸ steady)
  obtain ⟨-, hshared⟩ := returns_of_conclusive coherent steady h
  obtain ⟨-, happart⟩ := returns_of_conclusive (S := S.of tree start) distinct.coherent steady'
    (conclusive_renumber hS h)
  intro d hd
  have hmem : d.renumber f ∈ S.criterion.nodes := by
    rw [hS]
    exact Criterion.mem_nodes_renumber f hd
  have hclosing := hshared _ hmem
  rw [Criterion.id_renumber, Criterion.closing_renumber fun e he =>
    before e (Criterion.nodes_subset hd he)] at hclosing
  exact hclosing.trans (happart d hd).symm

variable (start) in
theorem agrees_memory {m : Nat} (hS : S.criterion = tree.renumber f) (distinct : tree.Distinct)
    (coherent : S.criterion.Coherent) (steady : S.criterion.Steady)
    (returns : ∀ k ≤ m, S.Returns k) :
    ∀ d ∈ tree.nodes, ((S.memory (m + 1)).get (f d.id)).account =
      (((S.of tree start).memory (m + 1)).get d.id).account := by
  obtain ⟨t, ht⟩ := conclusive_of_returns coherent steady (returns m (Nat.le_refl m))
  refine agrees_step hS distinct coherent steady ht fun d hd => ?_
  induction m generalizing t d with
  | zero =>
    -- in iteration 0 every node opens with the same account
    rfl
  | succ m ih =>
    have earlier : ∀ k ≤ m, S.Returns k := fun k hk => returns k (Nat.le_succ_of_le hk)
    obtain ⟨t', ht'⟩ := conclusive_of_returns coherent steady (earlier m (Nat.le_refl m))
    exact agrees_step hS distinct coherent steady ht' (ih earlier t' ht') d hd

/-- Sharing a node is harmless: where a node of a tree stands in several places, the calls of the
tree return when those of the tree with a node for each place do, with the same answers, and leave
the same reason and the same iteration in all places. -/
theorem sharing_law (coherent : S.criterion.Coherent) (steady : S.criterion.Steady) :
    (∃ tree f, Criterion.Unshares tree f S.criterion) ∧
    ∀ tree f start, Criterion.Unshares tree f S.criterion →
      (∀ k, S.Returns k ↔ (S.of tree start).Returns k) ∧
      ∀ m, (∀ k ≤ m, S.Returns k) → ∀ k ≤ m,
        given (S.criterion.ask S.problem (S.state k) (Int.ofNat k) ⟨S.env k, S.memory k⟩) =
          given (tree.ask S.problem (S.state k) (Int.ofNat k)
            ⟨S.env k, (S.of tree start).memory k⟩) ∧
        ∀ d ∈ tree.nodes,
          ((S.memory (k + 1)).get (f d.id)).reason =
            (((S.of tree start).memory (k + 1)).get d.id).reason ∧
          ((S.memory (k + 1)).get (f d.id)).since =
            (((S.of tree start).memory (k + 1)).get d.id).since := by
  refine ⟨Criterion.exists_unshares S.criterion, fun tree f start unshares => ?_⟩
  have hS : S.criterion = tree.renumber f := unshares.renumber.symm
  have steady' : tree.Steady := steady_of_renumber (hS ▸ steady)
  have coherent' : tree.Coherent := unshares.distinct.coherent
  -- an atom comes to the same thing in all its places, so that both trees hear the same
  refine ⟨fun k => ⟨fun h => ?_, fun h => ?_⟩, fun m returns k hk => ⟨?_, fun d hd => ?_⟩⟩
  · obtain ⟨t, ht⟩ := conclusive_of_returns coherent steady h
    obtain ⟨⟨j, hj⟩, -⟩ := returns_of_conclusive (S := S.of tree start) coherent' steady'
      (conclusive_renumber hS ht)
    exact ⟨_, j, hj⟩
  · obtain ⟨t', ht'⟩ := conclusive_of_returns (S := S.of tree start) coherent' steady' h
    obtain ⟨t, ht⟩ := conclusive_of_renumber coherent hS ht'
    obtain ⟨⟨j, hj⟩, -⟩ := returns_of_conclusive coherent steady ht
    exact ⟨_, j, hj⟩
  · obtain ⟨t, ht⟩ := conclusive_of_returns coherent steady (returns k hk)
    obtain ⟨⟨j, hj⟩, -⟩ := returns_of_conclusive coherent steady ht
    obtain ⟨⟨j', hj'⟩, -⟩ := returns_of_conclusive (S := S.of tree start) coherent' steady'
      (conclusive_renumber hS ht)
    have hverdict : S.criterion.verdict t = tree.verdict fun i => t (f i) := by
      rw [hS, Criterion.verdict_renumber]
    have hanswer : given (tree.ask S.problem (S.state k) (Int.ofNat k)
        ⟨S.env k, (S.of tree start).memory k⟩) = .ok (tree.verdict fun i => t (f i)) :=
      congrArg given hj'
    rw [hj, hanswer, ← hverdict]
    rfl
  · have haccount := agrees_memory start hS unshares.distinct coherent steady
      (fun i hi => returns i (Nat.le_trans hi hk)) d hd
    exact Prod.mk.inj haccount

end Law

def twofold : Series (Bool × Bool) Float :=
  { lights with criterion := .any 0 [both, .all 4 [both, .atom 5 (.cap 3)]] }

def apart : Criterion (Bool × Bool) Float :=
  .any 0 [both, .all 4 [.all 6 [light 7 Prod.fst, light 8 Prod.snd], .atom 5 (.cap 3)]]

def origin (i : Nat) : Nat := if 6 ≤ i then i - 5 else i

theorem unshares_apart : Criterion.Unshares apart origin twofold.criterion := ⟨by decide, rfl⟩

theorem coherent_twofold : twofold.criterion.Coherent := by
  simp [Criterion.Coherent, twofold, both, light, Criterion.nodes, Criterion.nodesEach, Criterion.id]

theorem steady_twofold : twofold.criterion.Steady := by
  intro i check hi
  simp only [twofold, both, light, Criterion.nodes, Criterion.nodesEach, List.append_nil,
    List.cons_append, List.nil_append, List.mem_cons, List.not_mem_nil, or_false, reduceCtorEq,
    false_or, Criterion.atom.injEq] at hi
  rcases hi with ⟨-, rfl⟩ | ⟨-, rfl⟩ | ⟨-, rfl⟩ | ⟨-, rfl⟩ | ⟨-, rfl⟩
  · exact fun s k env => ⟨.ok _, rfl⟩
  · exact fun s k env => ⟨.ok _, rfl⟩
  · exact fun s k env => ⟨.ok _, rfl⟩
  · exact fun s k env => ⟨.ok _, rfl⟩
  · trivial

theorem sharing_law_twofold : ((twofold.memory 4).get 2).since =
    (((twofold.of apart .empty).memory 4).get 7).since := by
  have returns : ∀ k ≤ 3, twofold.Returns k
    | 0, _ => ⟨_, _, rfl⟩
    | 1, _ => ⟨_, _, rfl⟩
    | 2, _ => ⟨_, _, rfl⟩
    | 3, _ => ⟨_, _, rfl⟩
  have hplace : light 7 Prod.fst ∈ apart.nodes := by
    simp [apart, light, Criterion.nodes, Criterion.nodesEach]
  have law := (sharing_law coherent_twofold steady_twofold).2 apart origin .empty unshares_apart
  exact ((law.2 3 returns 3 (Nat.le_refl 3)).2 _ hplace).2

end Series
end Geodescent
