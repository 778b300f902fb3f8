import Geodescent.Proofs.Criterion.Bracketing
import Geodescent.Proofs.Criterion.Reason
import Geodescent.Proofs.Criterion.Sharing

/-! Criteria chained by an operator mean the combination of all of them, however they are bracketed.
The streak of a conjunction begins with the latest streak of its members, and the leftmost of the latest
is the same in any brackets: `chained_law`. -/
namespace Geodescent

section Streak
variable {f g : Nat → Bool} {k : Nat}

theorem streakStart_le (f : Nat → Bool) (k : Nat) : streakStart f k ≤ k := by
  induction k with
  | zero => exact Nat.le_refl 0
  | succ k ih =>
    unfold streakStart
    split
    · exact Nat.le_succ_of_le ih
    · exact Nat.le_refl _

theorem streakStart_and (f g : Nat → Bool) (k : Nat) :
    streakStart (fun i => f i && g i) k = max (streakStart f k) (streakStart g k) := by
  induction k with
  | zero => rfl
  | succ k ih =>
    have hf := streakStart_le f k
    have hg := streakStart_le g k
    unfold streakStart
    cases f k with
    | true =>
      cases g k with
      | true => exact ih
      -- a streak that breaks off here begins later than any other
      | false => exact (Nat.max_eq_right (Nat.le_succ_of_le hf)).symm
    | false =>
      cases g k with
      | true => exact (Nat.max_eq_left (Nat.le_succ_of_le hg)).symm
      | false => exact (Nat.max_self (k + 1)).symm

end Streak

theorem intercalate_append_congr {s : String} {xs xs' ys ys' : List String}
    (hxs : xs = [] ↔ xs' = []) (hys : ys = [] ↔ ys' = [])
    (hx : s.intercalate xs = s.intercalate xs') (hy : s.intercalate ys = s.intercalate ys') :
    s.intercalate (xs ++ ys) = s.intercalate (xs' ++ ys') := by
  by_cases hnil : xs = []
  · rw [hnil, hxs.mp hnil]
    exact hy
  · by_cases hnil' : ys = []
    · rw [hnil', hys.mp hnil', List.append_nil, List.append_nil]
      exact hx
    · rw [String.intercalate_append_of_ne_nil hnil hnil',
        String.intercalate_append_of_ne_nil (fun h => hnil (hxs.mpr h)) fun h => hnil' (hys.mpr h),
        hx, hy]

namespace Criterion
variable {ε α : Type}

theorem later_assoc (a b c : String × Int) : later (later a b) c = later a (later b c) := by
  unfold later
  split <;> split <;> grind

instance : Std.Associative later := ⟨later_assoc⟩

def latestAccount : List (String × Int) → String × Int
  | [] => ("", -1)
  | a :: as => as.foldl later a

theorem latestReason_eq (as : List (String × Int)) : latestReason as = (latestAccount as).1 := by
  cases as with
  | nil => rfl
  | cons a as => rfl

theorem latestAccount_append {as bs : List (String × Int)} (has : as ≠ []) (hbs : bs ≠ []) :
    latestAccount (as ++ bs) = later (latestAccount as) (latestAccount bs) := by
  rcases as with _ | ⟨a, as⟩
  · exact absurd rfl has
  · rcases bs with _ | ⟨b, bs⟩
    · exact absurd rfl hbs
    · change ((as ++ b :: bs).foldl later a) = later (as.foldl later a) (bs.foldl later b)
      rw [List.foldl_append, List.foldl_cons, List.foldl_assoc]

def told (t : Nat → Option String) (nodes : Store (NodeMemory α)) (cs : List (Criterion ε α)) :
    List String :=
  (cs.filter (verdict t)).map fun c => (nodes.get c.id).reason

variable {t : Nat → Option String} {nodes nodes' : Store (NodeMemory α)}
  {cs : List (Criterion ε α)}

theorem reasonOfAny_told : reasonOfAny nodes cs (cs.map (verdict t)) =
    "\n".intercalate (told t nodes cs) := by
  rw [reasonOfAny, filterMap_zip_map fun c : Criterion ε α => (nodes.get c.id).reason]
  rfl

theorem told_append (cs ds : List (Criterion ε α)) :
    told t nodes (cs ++ ds) = told t nodes cs ++ told t nodes ds := by
  rw [told, List.filter_append, List.map_append]
  rfl

theorem told_singleton (c : Criterion ε α) : told t nodes [c] =
    if c.verdict t then [(nodes.get c.id).reason] else [] := by
  rw [told, List.filter_cons]
  split
  · rfl
  · rfl

theorem told_eq_nil_iff {id : Nat} : told t nodes cs = [] ↔ ¬ (any id cs).verdict t = true := by
  rw [told, List.map_eq_nil_iff, List.filter_eq_nil_iff, verdict, holds, holdsAny_eq_any,
    List.any_eq_true]
  constructor
  · rintro h ⟨c, hc, hv⟩
    exact h c hc hv
  · exact fun h c hc hv => h ⟨c, hc, hv⟩

theorem explained_of_accounts {d : Criterion ε α}
    (h : accounts nodes' d.children = accounts nodes d.children) :
    d.explained t nodes' = d.explained t nodes := by
  cases d with
  | atom id check => rfl
  | all id members =>
    rw [children_all] at h
    rw [explained, explained, reasonOfAll_eq, reasonOfAll_eq, h]
  | any id members =>
    rw [children_any] at h
    rw [explained, explained, reasonOfAny_eq, reasonOfAny_eq, h]

end Criterion

namespace Bracketing
open Criterion
variable {ε α : Type} {J : Junction} {B l r : Bracketing ε α} {id : Nat} {t : Nat → Option String}
  {k : Int} {before after : Store (NodeMemory α)}

theorem verdict_tree (t : Nat → Option String) (id : Nat) :
    (B.tree J).verdict t = (J.join id B.members).verdict t := by
  induction B with
  | member c =>
    cases J with
    | all => exact (Bool.and_true _).symm
    | any => exact (Bool.or_false _).symm
  | pair mark l r ihl ihr =>
    rw [members, tree]
    cases J with
    | all =>
      simp only [Junction.join, verdict, holds, holdsAll_eq_all, List.all_append, List.all_cons,
        List.all_nil, Bool.and_true] at ihl ihr ⊢
      rw [ihl, ihr]
    | any =>
      simp only [Junction.join, verdict, holds, holdsAny_eq_any, List.any_append, List.any_cons,
        List.any_nil, Bool.or_false] at ihl ihr ⊢
      rw [ihl, ihr]

theorem mem_nodes_left : l.tree J ∈ ((pair id l r).tree J).nodes :=
  mem_nodes_child (by rw [tree, Junction.children_join]; exact List.mem_cons_self)

theorem mem_nodes_right : r.tree J ∈ ((pair id l r).tree J).nodes :=
  mem_nodes_child (by
    rw [tree, Junction.children_join]
    exact List.mem_cons_of_mem _ List.mem_cons_self)

theorem told_pair (noted : Noted t k before after ((pair id l r).tree .any)) :
    (told t after [(pair id l r).tree .any] = [] ↔
      told t after [l.tree .any, r.tree .any] = []) ∧
    "\n".intercalate (told t after [(pair id l r).tree .any]) =
      "\n".intercalate (told t after [l.tree .any, r.tree .any]) := by
  have hnil : told t after [l.tree .any, r.tree .any] = [] ↔
      ¬ ((pair id l r).tree .any).verdict t = true := told_eq_nil_iff
  have hreason := noted.reason
  rw [told_singleton, hnil]
  by_cases hv : ((pair id l r).tree .any).verdict t = true
  · rw [if_pos hv] at hreason ⊢
    rw [hreason, String.intercalate_singleton]
    exact ⟨⟨fun h => absurd h (List.cons_ne_nil _ _), fun h => absurd hv h⟩, reasonOfAny_told⟩
  · -- a pair that does not hold adds no empty line
    rw [if_neg hv, hnil.mpr hv]
    exact ⟨⟨fun _ => hv, fun _ => rfl⟩, rfl⟩

theorem told_tree (noted : ∀ d ∈ (B.tree .any).nodes, Noted t k before after d) :
    (told t after [B.tree .any] = [] ↔ told t after B.members = []) ∧
      "\n".intercalate (told t after [B.tree .any]) = "\n".intercalate (told t after B.members) := by
  induction B with
  | member c => exact ⟨Iff.rfl, rfl⟩
  | pair id l r ihl ihr =>
    obtain ⟨hnilₗ, hlinesₗ⟩ := ihl fun d hd => noted d (nodes_subset mem_nodes_left hd)
    obtain ⟨hnilᵣ, hlinesᵣ⟩ := ihr fun d hd => noted d (nodes_subset mem_nodes_right hd)
    obtain ⟨hnil, hlines⟩ := told_pair (noted _ (mem_nodes_self _))
    have hsides : told t after [l.tree .any, r.tree .any] =
        told t after [l.tree .any] ++ told t after [r.tree .any] :=
      told_append [l.tree .any] [r.tree .any]
    rw [hnil, hlines, members, hsides, told_append, List.append_eq_nil_iff,
      List.append_eq_nil_iff, hnilₗ, hnilᵣ]
    exact ⟨Iff.rfl, intercalate_append_congr hnilₗ hnilᵣ hlinesₗ hlinesᵣ⟩

theorem account_pair (noted : Noted t k before after ((pair id l r).tree .all))
    (since : (after.get id).since =
      max (after.get (l.tree .all).id).since (after.get (r.tree .all).id).since)
    (h : ((pair id l r).tree .all).verdict t = true) : (after.get id).account =
      later (after.get (l.tree .all).id).account (after.get (r.tree .all).id).account := by
  have hreason := noted.reason
  rw [if_pos h] at hreason
  -- on a tie the left side is chosen, both as the maximum and as the later account
  refine Prod.ext (hreason.trans (reasonOfAll_eq after [l.tree .all, r.tree .all])) ?_
  rw [later, apply_ite Prod.snd]
  exact since.trans (max_def_lt _ _)

theorem verdict_sides (h : ((pair id l r).tree .all).verdict t = true) :
    (l.tree .all).verdict t = true ∧ (r.tree .all).verdict t = true := by
  rw [tree, Junction.join, verdict, holds, holdsAll_eq_all, List.all_eq_true] at h
  exact ⟨h _ List.mem_cons_self, h _ (List.mem_cons_of_mem _ List.mem_cons_self)⟩

theorem account_tree (noted : ∀ d ∈ (B.tree .all).nodes, Noted t k before after d)
    (since : ∀ mark (l r : Bracketing ε α), (pair mark l r).tree .all ∈ (B.tree .all).nodes →
      ((pair mark l r).tree .all).verdict t = true →
        (after.get mark).since =
          max (after.get (l.tree .all).id).since (after.get (r.tree .all).id).since)
    (h : (B.tree .all).verdict t = true) :
    (after.get (B.tree .all).id).account = latestAccount (accounts after B.members) := by
  induction B with
  | member c => rfl
  | pair id l r ihl ihr =>
    have hself := mem_nodes_self ((pair id l r).tree .all)
    obtain ⟨holdsₗ, holdsᵣ⟩ := verdict_sides h
    have hl := ihl (fun d hd => noted d (nodes_subset mem_nodes_left hd))
      (fun mark l' r' hd => since mark l' r' (nodes_subset mem_nodes_left hd)) holdsₗ
    have hr := ihr (fun d hd => noted d (nodes_subset mem_nodes_right hd))
      (fun mark l' r' hd => since mark l' r' (nodes_subset mem_nodes_right hd)) holdsᵣ
    have hne : ∀ C : Bracketing ε α, accounts after C.members ≠ [] := fun C hnil =>
      C.members_ne_nil (List.map_eq_nil_iff.mp hnil)
    have happend : accounts after (pair id l r).members =
        accounts after l.members ++ accounts after r.members := List.map_append
    rw [happend, latestAccount_append (hne l) (hne r), ← hl, ← hr]
    exact account_pair (noted _ hself) (since id l r hself h) h

end Bracketing

namespace Series
open Criterion
variable {ε α : Type} [Scalar α] {S : Series ε α} {k m : Nat}

/-- In a call every atom comes to one thing, in however many places it stands. It does if no node stands
twice, and if checks leave the surroundings alone. -/
def Univocal (S : Series ε α) (k : Nat) : Prop := ∃ t, Consistent t (S.events k)

theorem univocal_of_distinct (distinct : S.criterion.Distinct) (h : S.Returns k) :
    S.Univocal k := by
  obtain ⟨b, j, hcall⟩ := call_of_returns h
  exact ⟨_, consistent_ask distinct hcall⟩

theorem univocal_of_steady (coherent : S.criterion.Coherent) (steady : S.criterion.Steady)
    (h : S.Returns k) : S.Univocal k := by
  obtain ⟨t, ht⟩ := conclusive_of_returns coherent steady h
  obtain ⟨-, -, -, consistent⟩ := consistent_of_conclusive coherent steady ht
  exact ⟨t, consistent⟩

theorem exists_heard (h : ∀ i ≤ k, S.Univocal i) :
    ∃ t : Nat → Nat → Option String, ∀ i ≤ k, Consistent (t i) (S.events i) := by
  have each : ∀ i, ∃ t, i ≤ k → Consistent t (S.events i) := by
    intro i
    by_cases hi : i ≤ k
    · obtain ⟨t, ht⟩ := h i hi
      exact ⟨t, fun _ => ht⟩
    · exact ⟨fun _ => none, fun h => absurd h hi⟩
  exact Classical.skolem.mp each

/-- Up to the call in an iteration every node has noted what was heard. -/
def Notes (S : Series ε α) (t : Nat → Nat → Option String) (k : Nat) : Prop :=
  ∀ i ≤ k, ∀ d ∈ S.criterion.nodes, Noted (t i) (Int.ofNat i) (S.memory i) (S.memory (i + 1)) d

theorem Notes.anti {t : Nat → Nat → Option String} (h : S.Notes t m) (hk : k ≤ m) : S.Notes t k :=
  fun i hi => h i (Nat.le_trans hi hk)

theorem Notes.last {t : Nat → Nat → Option String} (h : S.Notes t k) {d : Criterion ε α}
    (hd : d ∈ S.criterion.nodes) :
    Noted (t k) (Int.ofNat k) (S.memory k) (S.memory (k + 1)) d := h k (Nat.le_refl k) d hd

theorem Notes.since {t : Nat → Nat → Option String} (h : S.Notes t k) {d : Criterion ε α}
    (hd : d ∈ S.criterion.nodes) : ((S.memory (k + 1)).get d.id).since =
      if d.verdict (t k) then Int.ofNat (streakStart (fun i => d.verdict (t i)) k) else -1 :=
  since_of_noted fun i hi => h i hi d hd

theorem noted_of_consistent {t : Nat → Option String} (coherent : S.criterion.Coherent)
    (h : S.Returns k) (consistent : Consistent t (S.events k)) :
    given (S.criterion.ask S.problem (S.state k) (Int.ofNat k) ⟨S.env k, S.memory k⟩) =
        .ok (S.criterion.verdict t) ∧
      ∀ d ∈ S.criterion.nodes,
        Noted t (Int.ofNat k) (S.memory k) (S.memory (k + 1)) d := by
  obtain ⟨b, j, hcall⟩ := call_of_returns h
  obtain ⟨rfl, hclosing⟩ := closing_of_consistent coherent hcall consistent
  refine ⟨?_, fun d hd => noted_of_closing rfl fun e he => hclosing e (nodes_subset hd he)⟩
  rw [← outcome_callWith, hcall]
  rfl

theorem since_pair {t : Nat → Nat → Option String} {mark : Nat} {l r : Bracketing ε α}
    (notes : S.Notes t k) (hd : (Bracketing.pair mark l r).tree .all ∈ S.criterion.nodes)
    (h : ((Bracketing.pair mark l r).tree .all).verdict (t k) = true) :
    ((S.memory (k + 1)).get mark).since = max ((S.memory (k + 1)).get (l.tree .all).id).since
      ((S.memory (k + 1)).get (r.tree .all).id).since := by
  have hand : ∀ i, ((Bracketing.pair mark l r).tree .all).verdict (t i) =
      ((l.tree .all).verdict (t i) && (r.tree .all).verdict (t i)) := fun i =>
    congrArg ((l.tree .all).verdict (t i) && ·) (Bool.and_true _)
  have hpair := notes.since hd
  have hleft := notes.since (nodes_subset hd Bracketing.mem_nodes_left)
  have hright := notes.since (nodes_subset hd Bracketing.mem_nodes_right)
  rw [if_pos h, funext hand, streakStart_and] at hpair
  rw [hand, Bool.and_eq_true] at h
  rw [if_pos h.1] at hleft
  rw [if_pos h.2] at hright
  rw [hleft, hright]
  refine hpair.trans ?_
  simp only [Int.ofNat_eq_natCast]
  omega

section Law
variable {J : Junction} {B : Bracketing ε α} {id : Nat} {start start' : Store (NodeMemory α)}

def chained (S : Series ε α) (J : Junction) (B : Bracketing ε α) (start : Store (NodeMemory α)) :
    Series ε α := S.of (B.tree J) start

def combined (S : Series ε α) (J : Junction) (id : Nat) (cs : List (Criterion ε α))
    (start : Store (NodeMemory α)) : Series ε α := S.of (J.join id cs) start

def combinedOpening (S : Series ε α) (J : Junction) (B : Bracketing ε α) (id k : Nat)
    (start : Store (NodeMemory α)) : Judging ε α :=
  renewed (Int.ofNat k) (J.join id B.members)
    ⟨S.env k, (S.combined J id B.members start).memory k⟩

/-- The memories before a call are level for the members, except in iteration 0. -/
def Beside (S : Series ε α) (J : Junction) (B : Bracketing ε α) (id k : Nat)
    (start start' : Store (NodeMemory α)) : Prop :=
  k ≠ 0 → Even B.members ⟨S.env k, (S.chained J B start).memory k⟩
    ⟨S.env k, (S.combined J id B.members start').memory k⟩

theorem env_combinedOpening : (S.combinedOpening J B id k start).env = S.env k := env_renewed _ _ _

theorem even_opening (beside : S.Beside J B id k start start') : Int.ofNat k ≠ 0 →
    Even B.members ⟨S.env k, (S.chained J B start).memory k⟩ (S.combinedOpening J B id k start') := by
  intro hk
  rw [combinedOpening, renewed, if_neg hk]
  exact beside fun h => hk (by rw [h]; rfl)

theorem combined_returns {fs : List (Event ε α)} {bs : List Bool} {m : Judging ε α}
    (h : Narrated.askEach S.problem (S.state k) (Int.ofNat k) B.members
      (S.combinedOpening J B id k start') = (fs, .ok bs m)) :
    ∃ b n, (S.combined J id B.members start').callWith k
        ((S.combined J id B.members start').memory k) = (fs ++ [.answered id (.ok b)], .ok b n) ∧
      n.env = m.env ∧ ∀ i, i ≠ id → n.nodes.get i = m.nodes.get i := by
  obtain ⟨b, n, hconclude⟩ := J.concludes id B.members (k := Int.ofNat k) m.nodes bs m
  exact ⟨b, n, J.ask_join_eq_ok_iff.mpr ⟨bs, m, fs, h, hconclude, rfl⟩, conclude_frame hconclude⟩

theorem combined_of_chained (numbered : B.Numbered) (fresh : id ∉ idsEach B.members)
    (beside : S.Beside J B id k start start') (h : (S.chained J B start).Returns k) :
    (S.combined J id B.members start').Returns k ∧
    (∀ t, Consistent t ((S.chained J B start).events k) →
      Consistent t ((S.combined J id B.members start').events k)) ∧
    S.Beside J B id (k + 1) start start' := by
  obtain ⟨b, m, hcall⟩ := call_of_returns h
  obtain ⟨fs, bs, m', heach, hsub, hend⟩ := Bracketing.askEach_of_tree
    (j := ⟨S.env k, (S.chained J B start).memory k⟩) numbered env_combinedOpening
    (even_opening beside) hcall
  obtain ⟨b', n, hcall', henv, hframe⟩ := combined_returns (S := S) heach
  have hevents : (S.combined J id B.members start').events k = fs ++ [.answered id (.ok b')] :=
    congrArg Prod.fst hcall'
  have hlast : Even B.members m n := hend.revised rfl henv fun i hi =>
    ⟨rfl, hframe i fun hid => fresh (hid ▸ hi)⟩
  refine ⟨returns_of_call hcall', fun t ht => ?_, fun _ c hc => ?_⟩
  · rw [hevents]
    refine consistent_append_iff.mpr ⟨fun i check finding he => ?_, consistent_answered t id _⟩
    exact ht i check finding (hsub he)
  · rw [memory_succ, memory_succ, hcall, hcall']
    exact ⟨rfl, (hlast c hc).account, (hlast c hc).started⟩

theorem chained_of_combined (numbered : B.Numbered) (beside : S.Beside J B id k start start')
    (h : (S.combined J id B.members start').Returns k) : (S.chained J B start).Returns k := by
  obtain ⟨b', n, hcall'⟩ := call_of_returns h
  obtain ⟨bs, m', fs, heach, -, -⟩ := J.ask_join_eq_ok_iff.mp hcall'
  obtain ⟨es, b, m, hask⟩ := Bracketing.tree_of_askEach (J := J)
    (j := ⟨S.env k, (S.chained J B start).memory k⟩) numbered env_combinedOpening
    (even_opening beside) heach
  have hcall : (S.chained J B start).callWith k ((S.chained J B start).memory k) = (es, .ok b m) :=
    hask
  exact returns_of_call hcall

theorem beside_of_returns (numbered : B.Numbered) (fresh : id ∉ idsEach B.members)
    (h : ∀ i < k, (S.chained J B start).Returns i) : S.Beside J B id k start start' := by
  induction k with
  | zero => exact fun hk => absurd rfl hk
  | succ k ih =>
    have beside := ih fun i hi => h i (Nat.lt_succ_of_lt hi)
    exact (combined_of_chained numbered fresh beside (h k (Nat.lt_succ_self k))).2.2

theorem returns_chained_iff (numbered : B.Numbered) (fresh : id ∉ idsEach B.members) (m : Nat) :
    (∀ k ≤ m, (S.chained J B start).Returns k) ↔
      ∀ k ≤ m, (S.combined J id B.members start').Returns k := by
  constructor
  · intro h k hk
    have beside : S.Beside J B id k start start' := beside_of_returns numbered fresh fun i hi =>
      h i (Nat.le_trans (Nat.le_of_lt hi) hk)
    exact (combined_of_chained numbered fresh beside (h k hk)).1
  · intro h k
    -- the memories are level only after calls that have returned in the chain, too
    induction k using Nat.strong_induction_on with
    | _ k ih =>
      intro hk
      have beside : S.Beside J B id k start start' := beside_of_returns numbered fresh fun i hi =>
        ih i hi (Nat.le_trans (Nat.le_of_lt hi) hk)
      exact chained_of_combined numbered beside (h k hk)

theorem reason_of_holds {t : Nat → Nat → Option String} (notes : (S.chained J B start).Notes t k)
    (h : (B.tree J).verdict (t k) = true) (id : Nat) :
    (((S.chained J B start).memory (k + 1)).get (B.tree J).id).reason =
      (J.join id B.members).explained (t k) ((S.chained J B start).memory (k + 1)) := by
  have noted := fun d hd => notes.last (d := d) hd
  cases J with
  | all =>
    have haccount := Bracketing.account_tree noted
      (fun mark l r hd hv => since_pair notes hd hv) h
    refine (congrArg Prod.fst haccount).trans ?_
    rw [← latestReason_eq, ← reasonOfAll_eq]
    rfl
  | any =>
    obtain ⟨-, hlines⟩ := Bracketing.told_tree noted
    rw [told_singleton, if_pos h, String.intercalate_singleton] at hlines
    exact hlines.trans reasonOfAny_told.symm

omit [Scalar α] in
theorem coherent_join (coherent : (B.tree J).Coherent) (fresh : id ∉ idsEach B.members) :
    (J.join id B.members).Coherent := by
  have apart : ∀ d ∈ nodesEach B.members, d.id ≠ (J.join id B.members).id := by
    intro d hd hsame
    rw [J.id_join] at hsame
    exact fresh (hsame ▸ id_mem_idsEach hd)
  intro d hd e he hsame
  rw [J.nodes_join] at hd he
  rcases List.mem_append.mp hd with hd | hd
  · rcases List.mem_append.mp he with he | he
    · exact coherent d (Bracketing.nodesEach_members J B hd) e
        (Bracketing.nodesEach_members J B he) hsame
    · rw [List.mem_singleton.mp he] at hsame
      exact absurd hsame (apart d hd)
  · rw [List.mem_singleton.mp hd] at hsame ⊢
    rcases List.mem_append.mp he with he | he
    · exact absurd hsame.symm (apart e he)
    · exact (List.mem_singleton.mp he).symm

section Notes
variable {t : Nat → Nat → Option String} (notes : (S.chained J B start).Notes t k)
  (notes' : (S.combined J id B.members start').Notes t k)
include notes notes'

theorem since_chained : (((S.chained J B start).memory (k + 1)).get (B.tree J).id).since =
    (((S.combined J id B.members start').memory (k + 1)).get (J.join id B.members).id).since := by
  have hchain := notes.since (mem_nodes_self (B.tree J))
  have hcombined := notes'.since (mem_nodes_self (J.join id B.members))
  have hverdict : (fun i => (B.tree J).verdict (t i)) =
      fun i => (J.join id B.members).verdict (t i) :=
    funext fun i => Bracketing.verdict_tree (t i) id
  rw [hchain, hcombined, hverdict, Bracketing.verdict_tree (t k) id]

theorem reason_step (beside : S.Beside J B id (k + 1) start start')
    (opening : ((((S.chained J B start).memory k).get (B.tree J).id).opening (Int.ofNat k)).1 =
      ((((S.combined J id B.members start').memory k).get (J.join id B.members).id).opening
        (Int.ofNat k)).1) :
    (((S.chained J B start).memory (k + 1)).get (B.tree J).id).reason =
      (((S.combined J id B.members start').memory (k + 1)).get (J.join id B.members).id).reason := by
  have hcombined := (notes'.last (mem_nodes_self (J.join id B.members))).reason
  rw [← Bracketing.verdict_tree (t k) id] at hcombined
  by_cases hv : (B.tree J).verdict (t k) = true
  · -- the members say the same of themselves in both memories
    rw [reason_of_holds notes hv id, hcombined, if_pos hv]
    refine (explained_of_accounts ?_).symm
    rw [Junction.children_join]
    exact List.map_congr_left fun c hc =>
      (beside (Nat.succ_ne_zero k) c hc).account c.id (id_mem_ids (mem_nodes_self c))
  · -- neither holds, so that both keep the reason of an earlier call
    have hchain := (notes.last (mem_nodes_self (B.tree J))).reason
    rw [hchain, hcombined, if_neg hv, if_neg hv, opening]

theorem reason_chained (beside : ∀ i ≤ k, S.Beside J B id (i + 1) start start') :
    (((S.chained J B start).memory (k + 1)).get (B.tree J).id).reason =
      (((S.combined J id B.members start').memory (k + 1)).get (J.join id B.members).id).reason := by
  induction k with
  | zero => exact reason_step notes notes' (beside 0 (Nat.le_refl 0)) rfl
  | succ k ih =>
    refine reason_step notes notes' (beside (k + 1) (Nat.le_refl _)) ?_
    rw [NodeMemory.opening_succ, NodeMemory.opening_succ]
    exact ih (notes.anti (Nat.le_succ k)) (notes'.anti (Nat.le_succ k)) fun i hi =>
      beside i (Nat.le_succ_of_le hi)

end Notes

/-- Chained operators mean the flat combination. In whatever brackets criteria are chained, the calls
return as long as those of the combination of all of them do, with the same answers, and leave the same
iteration and the same reason. -/
theorem chained_law (S : Series ε α) (J : Junction) (B : Bracketing ε α) (id : Nat)
    (start start' : Store (NodeMemory α)) (coherent : (B.tree J).Coherent)
    (fresh : ∀ i ∈ id :: B.marks, i ∉ idsEach B.members) :
    B.chain J = .ok (S.chained J B start).criterion ∧
    J.make id (B.members.map .criterion) = .ok (S.combined J id B.members start').criterion ∧
    ∀ m, ((∀ k ≤ m, (S.chained J B start).Returns k) ↔
        ∀ k ≤ m, (S.combined J id B.members start').Returns k) ∧
      ((∀ k ≤ m, (S.chained J B start).Returns k) →
        (∀ k ≤ m, (S.chained J B start).Univocal k) → ∀ k ≤ m,
        given ((B.tree J).ask S.problem (S.state k) (Int.ofNat k)
            ⟨S.env k, (S.chained J B start).memory k⟩) =
          given ((J.join id B.members).ask S.problem (S.state k) (Int.ofNat k)
            ⟨S.env k, (S.combined J id B.members start').memory k⟩) ∧
        (((S.chained J B start).memory (k + 1)).get (B.tree J).id).since =
          (((S.combined J id B.members start').memory (k + 1)).get (J.join id B.members).id).since ∧
        (((S.chained J B start).memory (k + 1)).get (B.tree J).id).reason =
          (((S.combined J id B.members start').memory (k + 1)).get
            (J.join id B.members).id).reason) := by
  have numbered : B.Numbered := .of_coherent coherent fun i hi => fresh i (List.mem_cons_of_mem id hi)
  have hid : id ∉ idsEach B.members := fresh id List.mem_cons_self
  refine ⟨B.chain_eq J, J.make_criteria id B.members_ne_nil, fun m => ⟨?_, ?_⟩⟩
  · exact returns_chained_iff numbered hid m
  intro returns univocal k hk
  have beside : ∀ i ≤ k + 1, S.Beside J B id i start start' := fun i hi =>
    beside_of_returns numbered hid fun e he => returns e (by omega)
  obtain ⟨t, ht⟩ := exists_heard fun i hi => univocal i (Nat.le_trans hi hk)
  -- what is heard in a call of the chain is heard in that of the combination
  have hsame := fun i (hi : i ≤ k) =>
    combined_of_chained numbered hid (beside i (Nat.le_succ_of_le hi)) (returns i (by omega))
  have chain := fun i (hi : i ≤ k) =>
    noted_of_consistent (S := S.chained J B start) coherent (returns i (by omega)) (ht i hi)
  have combination := fun i (hi : i ≤ k) =>
    noted_of_consistent (S := S.combined J id B.members start') (coherent_join coherent hid)
      (hsame i hi).1 ((hsame i hi).2.1 (t i) (ht i hi))
  have notes : (S.chained J B start).Notes t k := fun i hi => (chain i hi).2
  have notes' : (S.combined J id B.members start').Notes t k := fun i hi => (combination i hi).2
  refine ⟨?_, since_chained notes notes', reason_chained notes notes' fun i hi => ?_⟩
  · have hanswer := (chain k (Nat.le_refl k)).1
    have hanswer' := (combination k (Nat.le_refl k)).1
    refine hanswer.trans (Eq.trans ?_ hanswer'.symm)
    exact congrArg Except.ok (Bracketing.verdict_tree (t k) id)
  · exact beside (i + 1) (Nat.succ_le_succ hi)

end Law

def repeatedly : Bracketing (Bool × Bool) Float :=
  .pair 0 (.pair 1 (.member (light 2 Prod.fst)) (.member (light 3 Prod.snd)))
    (.pair 4 (.member (.atom 5 (.cap 2))) (.member (light 2 Prod.fst)))

def once : Bracketing (Bool × Bool) Float :=
  .pair 0 (.member (light 2 Prod.fst))
    (.pair 1 (.member (light 3 Prod.snd)) (.member (.atom 5 (.cap 2))))

theorem coherent_repeatedly : (repeatedly.tree .all).Coherent := by
  simp [Criterion.Coherent, repeatedly, Bracketing.tree, Junction.join, light, Criterion.nodes,
    Criterion.nodesEach, Criterion.id]

theorem steady_repeatedly : (repeatedly.tree .all).Steady := by
  intro i check hi
  simp only [repeatedly, Bracketing.tree, Junction.join, light, Criterion.nodes,
    Criterion.nodesEach, List.append_nil, List.cons_append, List.nil_append, List.mem_cons,
    List.not_mem_nil, or_false, reduceCtorEq, false_or, Criterion.atom.injEq] at hi
  rcases hi with ⟨-, rfl⟩ | ⟨-, rfl⟩ | ⟨-, rfl⟩ | ⟨-, rfl⟩
  · exact fun s k env => ⟨.ok _, rfl⟩
  · exact fun s k env => ⟨.ok _, rfl⟩
  · trivial
  · exact fun s k env => ⟨.ok _, rfl⟩

theorem chained_law_lights :
    (((lights.chained .all repeatedly .empty).memory 4).get 0).reason =
      (((lights.combined .all 6 repeatedly.members .empty).memory 4).get 6).reason ∧
    (((lights.chained .any once .empty).memory 4).get 0).since =
      (((lights.combined .any 6 once.members .empty).memory 4).get 6).since := by
  have returns : ∀ k ≤ 3, (lights.chained .all repeatedly .empty).Returns k
    | 0, _ => ⟨_, _, rfl⟩
    | 1, _ => ⟨_, _, rfl⟩
    | 2, _ => ⟨_, _, rfl⟩
    | 3, _ => ⟨_, _, rfl⟩
  have returns' : ∀ k ≤ 3, (lights.chained .any once .empty).Returns k
    | 0, _ => ⟨_, _, rfl⟩
    | 1, _ => ⟨_, _, rfl⟩
    | 2, _ => ⟨_, _, rfl⟩
    | 3, _ => ⟨_, _, rfl⟩
  have distinct : (once.tree .any).Distinct := by decide
  obtain ⟨-, -, law⟩ :=
    chained_law lights .all repeatedly 6 .empty .empty coherent_repeatedly (by decide)
  obtain ⟨-, -, law'⟩ := chained_law lights .any once 6 .empty .empty distinct.coherent (by decide)
  have univocal := fun k hk =>
    univocal_of_steady coherent_repeatedly steady_repeatedly (returns k hk)
  have univocal' := fun k hk => univocal_of_distinct distinct (returns' k hk)
  exact ⟨((law 3).2 returns univocal 3 (Nat.le_refl 3)).2.2,
    ((law' 3).2 returns' univocal' 3 (Nat.le_refl 3)).2.1⟩

end Series
end Geodescent
