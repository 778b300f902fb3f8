import Mathlib.Data.List.Nodup
import Geodescent.Proofs.Criterion.Tree

/-! Trees with other numbers. A number that stands in several places is one node that stands there;
every tree comes from one without such numbers, in which each place has a node of its own. -/
namespace Geodescent.Criterion
variable {ε α : Type}

mutual
def renumber (f : Nat → Nat) : Criterion ε α → Criterion ε α
  | .atom id check => .atom (f id) check
  | .all id members => .all (f id) (renumberEach f members)
  | .any id members => .any (f id) (renumberEach f members)

def renumberEach (f : Nat → Nat) : List (Criterion ε α) → List (Criterion ε α)
  | [] => []
  | c :: cs => renumber f c :: renumberEach f cs
end

section Parts
variable (f : Nat → Nat)

theorem renumberEach_eq_map (cs : List (Criterion ε α)) : renumberEach f cs = cs.map (renumber f) := by
  induction cs with
  | nil => rfl
  | cons c cs ih => rw [renumberEach, List.map_cons, ih]

theorem id_renumber (c : Criterion ε α) : (c.renumber f).id = f c.id := by
  cases c with
  | _ => rfl

theorem children_renumber (c : Criterion ε α) :
    (c.renumber f).children = c.children.map (renumber f) := by
  cases c with
  | atom id check => rfl
  | all id members => exact renumberEach_eq_map f members
  | any id members => exact renumberEach_eq_map f members

theorem nodes_renumber (c : Criterion ε α) : (c.renumber f).nodes = c.nodes.map (renumber f) := by
  induction c using induct with
  | node c ih =>
    have hchildren : nodesEach (c.children.map (renumber f)) =
        (nodesEach c.children).map (renumber f) := by
      rw [nodesEach_eq_flatMap, nodesEach_eq_flatMap, List.flatMap_map, List.map_flatMap]
      exact List.flatMap_congr ih
    rw [nodes_eq, nodes_eq c, children_renumber, hchildren, List.map_append]
    rfl

theorem mem_nodes_renumber {c d : Criterion ε α} (h : d ∈ c.nodes) :
    d.renumber f ∈ (c.renumber f).nodes := by
  rw [nodes_renumber]
  exact List.mem_map_of_mem h

end Parts

theorem renumber_congr {f g : Nat → Nat} {c : Criterion ε α} (h : ∀ i ∈ c.ids, g i = f i) :
    c.renumber g = c.renumber f := by
  induction c using induct with
  | node c ih =>
    have hself : g c.id = f c.id := h _ (id_mem_ids (mem_nodes_self c))
    have hchildren : c.children.map (renumber g) = c.children.map (renumber f) := by
      refine List.map_congr_left fun e he => ih e he fun i hi => h i ?_
      obtain ⟨d, hd, rfl⟩ := List.mem_map.mp hi
      exact id_mem_ids (nodes_subset (mem_nodes_child he) hd)
    cases c with
    | atom id check => exact congrArg (atom · check) hself
    | all id members =>
      rw [children_all, ← renumberEach_eq_map, ← renumberEach_eq_map] at hchildren
      rw [renumber, renumber, hchildren]
      exact congrArg (all · _) hself
    | any id members =>
      rw [children_any, ← renumberEach_eq_map, ← renumberEach_eq_map] at hchildren
      rw [renumber, renumber, hchildren]
      exact congrArg (any · _) hself

/-- A tree in which every place has a node of its own; `f` says which node of `c` stands there. -/
structure Unshares (tree : Criterion ε α) (f : Nat → Nat) (c : Criterion ε α) : Prop where
  distinct : tree.Distinct
  renumber : tree.renumber f = c

theorem exists_unsharesEach {cs : List (Criterion ε α)}
    (h : ∀ c ∈ cs, ∀ n, ∃ tree f m, Unshares tree f c ∧ n ≤ m ∧ ∀ i ∈ tree.ids, n ≤ i ∧ i < m)
    (n : Nat) : ∃ (trees : List (Criterion ε α)) (f : Nat → Nat) (m : Nat),
      (idsEach trees).Nodup ∧ trees.map (Criterion.renumber f) = cs ∧ n ≤ m ∧
      ∀ i ∈ idsEach trees, n ≤ i ∧ i < m := by
  induction cs generalizing n with
  | nil => exact ⟨[], fun i => i, n, .nil, rfl, Nat.le_refl n, fun i hi => absurd hi List.not_mem_nil⟩
  | cons c cs ih =>
    obtain ⟨tree, f, m, unshares, hnm, htree⟩ := h c List.mem_cons_self n
    obtain ⟨trees, g, l, hnodup, hrenumber, hml, htrees⟩ :=
      ih (fun d hd => h d (List.mem_cons_of_mem c hd)) m
    -- the first tree has the numbers below `m`, the others those from there on
    have hfirst : tree.renumber (fun i => if i < m then f i else g i) = c := by
      rw [← unshares.renumber]
      exact renumber_congr fun i hi => if_pos (htree i hi).2
    have hothers : trees.map (Criterion.renumber fun i => if i < m then f i else g i) = cs := by
      rw [← hrenumber]
      refine List.map_congr_left fun d hd => renumber_congr fun i hi => if_neg ?_
      obtain ⟨e, he, rfl⟩ := List.mem_map.mp hi
      exact Nat.not_lt.mpr (htrees _ (id_mem_idsEach (mem_nodesEach.mpr ⟨d, hd, he⟩))).1
    refine ⟨tree :: trees, fun i => if i < m then f i else g i, l, ?_, ?_, by omega, fun i hi => ?_⟩
    · rw [idsEach_cons]
      refine List.nodup_append.mpr ⟨unshares.distinct, hnodup, ?_⟩
      rintro i hi _ hj rfl
      exact absurd (htree i hi).2 (Nat.not_lt.mpr (htrees i hj).1)
    · rw [List.map_cons, hfirst, hothers]
    · rw [idsEach_cons] at hi
      rcases List.mem_append.mp hi with hi | hi
      · exact ⟨(htree i hi).1, Nat.lt_of_lt_of_le (htree i hi).2 hml⟩
      · exact ⟨Nat.le_trans hnm (htrees i hi).1, (htrees i hi).2⟩

theorem exists_unshares_from (c : Criterion ε α) (n : Nat) :
    ∃ tree f m, Unshares tree f c ∧ n ≤ m ∧ ∀ i ∈ tree.ids, n ≤ i ∧ i < m := by
  induction c using induct generalizing n with
  | node c ih =>
    obtain ⟨trees, f, m, hnodup, hrenumber, hnm, htrees⟩ := exists_unsharesEach ih n
    -- the node itself comes after its members
    let g := fun i => if i < m then f i else c.id
    have hg : g m = c.id := if_neg (Nat.lt_irrefl m)
    have hmembers : trees.map (Criterion.renumber g) = c.children := by
      rw [← hrenumber]
      refine List.map_congr_left fun d hd => renumber_congr fun i hi => if_pos ?_
      obtain ⟨e, he, rfl⟩ := List.mem_map.mp hi
      exact (htrees _ (id_mem_idsEach (mem_nodesEach.mpr ⟨d, hd, he⟩))).2
    have key : ∀ tree : Criterion ε α, tree.children = trees → tree.id = m →
        tree.renumber g = c →
        ∃ tree f m, Unshares tree f c ∧ n ≤ m ∧ ∀ i ∈ tree.ids, n ≤ i ∧ i < m := by
      intro tree hchildren hid htree
      have hids : tree.ids = idsEach trees ++ [m] := by rw [ids_eq, hchildren, hid]
      refine ⟨tree, g, m + 1, ⟨?_, htree⟩, by omega, fun i hi => ?_⟩
      · rw [Distinct, hids]
        refine List.nodup_append.mpr ⟨hnodup, List.nodup_singleton m, ?_⟩
        rintro i hi _ hj rfl
        rw [List.mem_singleton.mp hj] at hi
        exact absurd (htrees m hi).2 (Nat.lt_irrefl m)
      · rw [hids] at hi
        rcases List.mem_append.mp hi with hi | hi
        · exact ⟨(htrees i hi).1, Nat.lt_succ_of_lt (htrees i hi).2⟩
        · rw [List.mem_singleton.mp hi]
          exact ⟨hnm, Nat.lt_succ_self m⟩
    cases c with
    | atom id check =>
      have hnone : trees = [] := List.map_eq_nil_iff.mp hrenumber
      exact key (.atom m check) hnone.symm rfl (congrArg (atom · check) hg)
    | all id members =>
      refine key (.all m trees) rfl rfl ?_
      rw [Criterion.renumber, renumberEach_eq_map, hmembers, hg]
      rfl
    | any id members =>
      refine key (.any m trees) rfl rfl ?_
      rw [Criterion.renumber, renumberEach_eq_map, hmembers, hg]
      rfl

theorem exists_unshares (c : Criterion ε α) : ∃ tree f, Unshares tree f c := by
  obtain ⟨tree, f, -, unshares, -⟩ := exists_unshares_from c 0
  exact ⟨tree, f, unshares⟩

end Geodescent.Criterion
