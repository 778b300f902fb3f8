import Geodescent.Proofs.Criterion.Frame

/-! Criteria chained by an operator, two at a time, and the combination of all of them at once. Both
ask the same members one after the other, and the memories in which they do so stay level for the
members: `askEach_of_tree` and `tree_of_askEach`. -/
namespace Geodescent
variable {ε α : Type}

inductive Junction where
  | all
  | any

namespace Junction

def join : Junction → Nat → List (Criterion ε α) → Criterion ε α
  | .all => .all
  | .any => .any

def make [Scalar α] : Junction → Nat → List (Criterion.Member ε α) → Answer α (Criterion ε α)
  | .all => Criterion.makeAll
  | .any => Criterion.makeAny

def finding : Junction → List (Criterion ε α) → Store (NodeMemory α) → List Bool → Check.Finding α
  | .all => Criterion.allFinding
  | .any => Criterion.anyFinding

variable (J : Junction) {id : Nat} {cs : List (Criterion ε α)}

theorem id_join : (J.join id cs).id = id := by
  cases J with
  | _ => rfl

theorem children_join : (J.join id cs).children = cs := by
  cases J with
  | _ => rfl

theorem nodes_join : (J.join id cs).nodes = Criterion.nodesEach cs ++ [J.join id cs] := by
  rw [Criterion.nodes_eq, children_join]

theorem requireEach_criteria [Scalar α] (cs : List (Criterion ε α)) :
    Criterion.requireEach (cs.map .criterion) = .ok cs := by
  induction cs with
  | nil => rfl
  | cons c cs ih =>
    rw [List.map_cons, Criterion.requireEach, ih]
    rfl

theorem make_criteria [Scalar α] (id : Nat) (hcs : cs ≠ []) :
    J.make id (cs.map .criterion) = .ok (J.join id cs) := by
  have hmembers : Criterion.members (cs.map .criterion) = .ok cs := by
    rcases cs with _ | ⟨c, cs⟩
    · exact absurd rfl hcs
    · have hunwrap : Criterion.unwrap ((c :: cs).map Criterion.Member.criterion) =
          (c :: cs).map .criterion := by
        cases cs with
        | _ => rfl
      rw [Criterion.members, hunwrap, List.map_cons]
      exact requireEach_criteria (c :: cs)
  cases J with
  | all => rw [make, Criterion.makeAll, hmembers]; rfl
  | any => rw [make, Criterion.makeAny, hmembers]; rfl

theorem concludes (id : Nat) (cs : List (Criterion ε α)) {k : Int}
    (nodes : Store (NodeMemory α)) (bs : List Bool) (j : Judging ε α) :
    ∃ b j', Criterion.conclude id k (J.finding cs nodes bs) j = .ok b j' := by
  cases J with
  | _ => exact Criterion.concludes id _ _ j

theorem ask_join_eq_ok_iff [Scalar α] {p : Problem ε α} {s : State α} {k : Int}
    {j j' : Judging ε α} {b : Bool} {es : List (Event ε α)} :
    Criterion.Narrated.ask p s k (J.join id cs) j = (es, .ok b j') ↔
      ∃ bs m fs, Criterion.Narrated.askEach p s k cs (Criterion.renewed k (J.join id cs) j) =
          (fs, .ok bs m) ∧
        Criterion.conclude id k (J.finding cs m.nodes bs) m = .ok b j' ∧
        es = fs ++ [.answered id (.ok b)] := by
  cases J with
  | all =>
    rw [join, Criterion.Narrated.ask]
    exact Criterion.gather_eq_ok_iff k
  | any =>
    rw [join, Criterion.Narrated.ask]
    exact Criterion.gather_eq_ok_iff k

end Junction

/-- A way of bracketing criteria. Every pair of brackets is a node of its own. -/
inductive Bracketing (ε α : Type) where
  | member (c : Criterion ε α)
  | pair (id : Nat) (left right : Bracketing ε α)

namespace Bracketing

def members : Bracketing ε α → List (Criterion ε α)
  | .member c => [c]
  | .pair _ left right => left.members ++ right.members

def marks : Bracketing ε α → List Nat
  | .member _ => []
  | .pair id left right => id :: (left.marks ++ right.marks)

def tree (J : Junction) : Bracketing ε α → Criterion ε α
  | .member c => c
  | .pair id left right => J.join id [left.tree J, right.tree J]

/-- The criteria chained by an operator, which makes a combination of two at a time. -/
def chain [Scalar α] (J : Junction) : Bracketing ε α → Answer α (Criterion ε α)
  | .member c => .ok c
  | .pair id left right => do
    let c ← left.chain J
    let d ← right.chain J
    J.make id [.criterion c, .criterion d]

theorem chain_eq [Scalar α] (J : Junction) (B : Bracketing ε α) : B.chain J = .ok (B.tree J) := by
  induction B with
  | member c => rfl
  | pair id l r ihl ihr =>
    rw [chain, ihl, ihr, tree]
    exact J.make_criteria id (List.cons_ne_nil (l.tree J) [r.tree J])

theorem marks_left {id : Nat} {l r : Bracketing ε α} : l.marks ⊆ (pair id l r).marks := fun _ hi =>
  List.mem_cons_of_mem id (List.mem_append_left _ hi)

theorem marks_right {id : Nat} {l r : Bracketing ε α} : r.marks ⊆ (pair id l r).marks := fun _ hi =>
  List.mem_cons_of_mem id (List.mem_append_right _ hi)

theorem members_ne_nil (B : Bracketing ε α) : B.members ≠ [] := by
  induction B with
  | member c => exact List.cons_ne_nil c []
  | pair id l r ihl ihr => exact List.append_ne_nil_of_left_ne_nil ihl _

theorem mem_ids_tree {J : Junction} {B : Bracketing ε α} {i : Nat} (h : i ∈ (B.tree J).ids) :
    i ∈ B.marks ∨ i ∈ Criterion.idsEach B.members := by
  induction B with
  | member c =>
    refine .inr ?_
    rw [members, Criterion.idsEach_cons]
    exact List.mem_append_left _ h
  | pair id l r ihl ihr =>
    rw [members, Criterion.idsEach_append, marks, List.mem_cons, List.mem_append, List.mem_append]
    rw [tree, Criterion.ids_eq, Junction.id_join, Junction.children_join, Criterion.idsEach_cons,
      Criterion.idsEach_cons, List.mem_append, List.mem_append, List.mem_append,
      List.mem_singleton] at h
    rcases h with (hl | hr | hnil) | rfl
    · exact (ihl hl).imp (fun h => .inr (.inl h)) .inl
    · exact (ihr hr).imp (fun h => .inr (.inr h)) .inr
    · exact absurd hnil List.not_mem_nil
    · exact .inl (.inl rfl)

theorem nodesEach_members (J : Junction) (B : Bracketing ε α) :
    Criterion.nodesEach B.members ⊆ (B.tree J).nodes := by
  induction B with
  | member c =>
    intro d hd
    obtain ⟨e, he, hde⟩ := Criterion.mem_nodesEach.mp hd
    rw [List.mem_singleton.mp he] at hde
    exact hde
  | pair id l r ihl ihr =>
    intro d hd
    rw [members, Criterion.nodesEach_append] at hd
    rw [tree]
    refine Criterion.mem_nodes.mpr (.inr ?_)
    rw [Junction.children_join]
    rcases List.mem_append.mp hd with hd | hd
    · exact ⟨l.tree J, List.mem_cons_self, ihl hd⟩
    · exact ⟨r.tree J, List.mem_cons_of_mem _ List.mem_cons_self, ihr hd⟩

/-- Numbers that tell the nodes of the members apart, and the brackets from them. -/
structure Numbered (B : Bracketing ε α) : Prop where
  coherent : ∀ d ∈ Criterion.nodesEach B.members, ∀ e ∈ Criterion.nodesEach B.members,
    d.id = e.id → d = e
  fresh : ∀ i ∈ B.marks, i ∉ Criterion.idsEach B.members

namespace Numbered
variable {id : Nat} {l r : Bracketing ε α}

theorem of_coherent {J : Junction} {B : Bracketing ε α} (coherent : (B.tree J).Coherent)
    (fresh : ∀ i ∈ B.marks, i ∉ Criterion.idsEach B.members) : B.Numbered where
  coherent d hd e he := coherent d (nodesEach_members J B hd) e (nodesEach_members J B he)
  fresh := fresh

theorem left (h : (pair id l r).Numbered) : l.Numbered where
  coherent d hd e he := by
    have hcoherent := h.coherent
    rw [members, Criterion.nodesEach_append] at hcoherent
    exact hcoherent d (List.mem_append_left _ hd) e (List.mem_append_left _ he)
  fresh i hi := by
    have hfresh := h.fresh i (List.mem_cons_of_mem id (List.mem_append_left _ hi))
    rw [members, Criterion.idsEach_append, List.mem_append, not_or] at hfresh
    exact hfresh.1

theorem right (h : (pair id l r).Numbered) : r.Numbered where
  coherent d hd e he := by
    have hcoherent := h.coherent
    rw [members, Criterion.nodesEach_append] at hcoherent
    exact hcoherent d (List.mem_append_right _ hd) e (List.mem_append_right _ he)
  fresh i hi := by
    have hfresh := h.fresh i (List.mem_cons_of_mem id (List.mem_append_right _ hi))
    rw [members, Criterion.idsEach_append, List.mem_append, not_or] at hfresh
    exact hfresh.2

end Numbered

section Asking
open Criterion
variable [Scalar α] {p : Problem ε α} {s : State α} {k : Int} {J : Junction} {id i : Nat}
  {B l r : Bracketing ε α} {j j' m m' : Judging ε α} {b : Bool} {bs : List Bool}
  {es fs : List (Event ε α)}

omit [Scalar α] in
theorem env_of_even (h : Even B.members j j') : j'.env = j.env := by
  obtain ⟨c, hc⟩ := List.exists_mem_of_ne_nil _ B.members_ne_nil
  exact (h c hc).env

theorem ask_pair_eq_ok_iff : Narrated.ask p s k ((pair id l r).tree J) j = (es, .ok b j') ↔
    ∃ a mₗ a' m es₁ es₂,
      Narrated.ask p s k (l.tree J) (renewed k ((pair id l r).tree J) j) = (es₁, .ok a mₗ) ∧
      Narrated.ask p s k (r.tree J) mₗ = (es₂, .ok a' m) ∧
      conclude id k (J.finding [l.tree J, r.tree J] m.nodes [a, a']) m = .ok b j' ∧
      es = es₁ ++ es₂ ++ [.answered id (.ok b)] := by
  rw [tree, J.ask_join_eq_ok_iff]
  constructor
  · rintro ⟨_, m, _, hasked, hconclude, rfl⟩
    obtain ⟨a, mₗ, _, es₁, es₂, hleft, hrest, rfl, rfl⟩ :=
      (askEach_cons_eq_ok_iff p s k).mp hasked
    obtain ⟨a', hright, rfl⟩ := askEach_singleton_eq_ok_iff.mp hrest
    exact ⟨a, mₗ, a', m, es₁, es₂, hleft, hright, hconclude, rfl⟩
  · rintro ⟨a, mₗ, a', m, es₁, es₂, hleft, hright, hconclude, rfl⟩
    have hrest := askEach_singleton_eq_ok_iff.mpr ⟨a', hright, rfl⟩
    have hasked := (askEach_cons_eq_ok_iff p s k).mpr
      ⟨a, mₗ, [a'], es₁, es₂, hleft, hrest, rfl, rfl⟩
    exact ⟨[a, a'], m, es₁ ++ es₂, hasked, hconclude, rfl⟩

theorem ask_frame (hi : i ∉ B.marks) (hmembers : i ∉ idsEach B.members)
    (htree : Narrated.ask p s k (B.tree J) j = (es, .ok b m))
    (heach : Narrated.askEach p s k B.members j' = (fs, .ok bs m')) :
    m.nodes.get i = j.nodes.get i ∧ m'.nodes.get i = j'.nodes.get i := by
  refine ⟨Criterion.ask_frame htree fun h => (mem_ids_tree h).elim hi hmembers, ?_⟩
  exact askEach_frame (fun _ _ _ _ _ _ => Criterion.ask_frame) heach hmembers

theorem Numbered.across {c : Criterion ε α} (numbered : (pair id l r).Numbered)
    {other : Bracketing ε α} (hc : c ∈ (pair id l r).members)
    (hother : other.members ⊆ (pair id l r).members) (hmarks : other.marks ⊆ (pair id l r).marks)
    (hlevel : Judging.Level c.ids c.timers j j') (even : Even other.members m m')
    (htree : Narrated.ask p s k (other.tree J) j = (es, .ok b m))
    (heach : Narrated.askEach p s k other.members j' = (fs, .ok bs m')) :
    Judging.Level c.ids c.timers m m' := by
  refine hlevel.onward other.members (fun d hd e he => ?_) even (env_of_even even) ?_
  · obtain ⟨f, hf, hef⟩ := mem_nodesEach.mp he
    exact numbered.coherent d (mem_nodesEach.mpr ⟨c, hc, hd⟩) e
      (mem_nodesEach.mpr ⟨f, hother hf, hef⟩)
  · intro i hi hnot
    exact ask_frame (fun hmark => numbered.fresh i (hmarks hmark) (mem_idsEach hc hi)) hnot
      htree heach

theorem Numbered.even_right (numbered : (pair id l r).Numbered)
    (even : k ≠ 0 → Even (pair id l r).members j j') (evenₗ : Even l.members m m')
    (htree : Narrated.ask p s k (l.tree J) (renewed k ((pair id l r).tree J) j) = (es, .ok b m))
    (heach : Narrated.askEach p s k l.members j' = (fs, .ok bs m')) :
    k ≠ 0 → Even r.members m m' := by
  intro hk c hc
  rw [renewed, if_neg hk] at htree
  have hmem : c ∈ (pair id l r).members := List.mem_append_right _ hc
  exact numbered.across hmem (List.subset_append_left _ _) marks_left (even hk c hmem) evenₗ
    htree heach

theorem askEach_of_tree (numbered : B.Numbered) (henv : j'.env = j.env)
    (even : k ≠ 0 → Even B.members j j')
    (h : Narrated.ask p s k (B.tree J) j = (es, .ok b m)) :
    ∃ fs bs m', Narrated.askEach p s k B.members j' = (fs, .ok bs m') ∧ fs ⊆ es ∧
      Even B.members m m' := by
  induction B generalizing j j' m b es with
  | member c =>
    obtain ⟨hevents, hend⟩ := level_ask (p := p) (s := s) henv fun hk =>
      even hk c (List.mem_singleton_self c)
    have hask : Narrated.ask p s k c j = (es, .ok b m) := h
    rw [hask] at hevents hend
    obtain ⟨m', hanswer, hlevel⟩ := hend.of_ok
    refine ⟨es, [b], m', ?_, List.Subset.refl es, fun d hd => ?_⟩
    · exact askEach_singleton_eq_ok_iff.mpr ⟨b, Prod.ext hevents hanswer, rfl⟩
    · rw [List.mem_singleton.mp hd]
      exact hlevel
  | pair id l r ihl ihr =>
    obtain ⟨a, mₗ, a', n, es₁, es₂, hleft, hright, hconclude, rfl⟩ := ask_pair_eq_ok_iff.mp h
    have henvₗ : j'.env = (renewed k ((pair id l r).tree J) j).env := by rw [env_renewed, henv]
    obtain ⟨fs₁, bs₁, mₗ', hleft', hsub₁, evenₗ⟩ := ihl numbered.left henvₗ
      (fun hk c hc => by
        rw [renewed, if_neg hk]
        exact even hk c (List.mem_append_left _ hc)) hleft
    obtain ⟨fs₂, bs₂, m', hright', hsub₂, evenᵣ⟩ := ihr numbered.right (env_of_even evenₗ)
      (numbered.even_right even evenₗ hleft hleft') hright
    -- a member on the left may stand on the right as well, where it has been asked again
    have hall : Even (pair id l r).members n m' := by
      intro c hc
      rcases List.mem_append.mp hc with hl | hr
      · exact numbered.across hc (List.subset_append_right _ _) marks_right (evenₗ c hl) evenᵣ
          hright hright'
      · exact evenᵣ c hr
    obtain ⟨henvₙ, hframe⟩ := conclude_frame hconclude
    refine ⟨fs₁ ++ fs₂, bs₁ ++ bs₂, m', ?_, ?_, hall.revised henvₙ rfl fun i hi => ⟨?_, rfl⟩⟩
    · exact askEach_append_eq_ok_iff.mpr
        ⟨bs₁, mₗ', bs₂, fs₁, fs₂, hleft', hright', rfl, rfl⟩
    · exact List.append_subset.mpr
        ⟨fun e he => List.mem_append_left _ (List.mem_append_left _ (hsub₁ he)),
          fun e he => List.mem_append_left _ (List.mem_append_right _ (hsub₂ he))⟩
    · -- the pair itself concludes last, and touches its own memory only
      refine hframe i fun hid => ?_
      exact numbered.fresh id List.mem_cons_self (hid ▸ hi)

theorem tree_of_askEach (numbered : B.Numbered) (henv : j'.env = j.env)
    (even : k ≠ 0 → Even B.members j j')
    (h : Narrated.askEach p s k B.members j' = (fs, .ok bs m')) :
    ∃ es b m, Narrated.ask p s k (B.tree J) j = (es, .ok b m) := by
  induction B generalizing j j' m' bs fs with
  | member c =>
    obtain ⟨b, hask, -⟩ := askEach_singleton_eq_ok_iff.mp h
    obtain ⟨-, hend⟩ := level_ask (p := p) (s := s) henv fun hk =>
      even hk c (List.mem_singleton_self c)
    rw [hask] at hend
    obtain ⟨m, hanswer, -⟩ := hend.symm.of_ok
    exact ⟨_, b, m, Prod.ext rfl hanswer⟩
  | pair id l r ihl ihr =>
    obtain ⟨bs₁, mₗ', bs₂, fs₁, fs₂, hleft', hright', -, -⟩ := askEach_append_eq_ok_iff.mp h
    have henvₗ : j'.env = (renewed k ((pair id l r).tree J) j).env := by rw [env_renewed, henv]
    have hevenₗ : k ≠ 0 → Even l.members (renewed k ((pair id l r).tree J) j) j' := by
      intro hk c hc
      rw [renewed, if_neg hk]
      exact even hk c (List.mem_append_left _ hc)
    -- what happens on the left keeps the memories level for the members on the right
    obtain ⟨es₁, a, mₗ, hleft⟩ := ihl numbered.left henvₗ hevenₗ hleft'
    obtain ⟨_, _, _, hsame, -, evenₗ⟩ := askEach_of_tree numbered.left henvₗ hevenₗ hleft
    cases hleft'.symm.trans hsame
    obtain ⟨es₂, a', m, hright⟩ := ihr numbered.right (env_of_even evenₗ)
      (numbered.even_right even evenₗ hleft hleft') hright'
    obtain ⟨b, n, hconclude⟩ := J.concludes id [l.tree J, r.tree J] m.nodes [a, a'] m
    exact ⟨_, b, n, ask_pair_eq_ok_iff.mpr
      ⟨a, mₗ, a', m, es₁, es₂, hleft, hright, hconclude, rfl⟩⟩

end Asking
end Bracketing
end Geodescent
