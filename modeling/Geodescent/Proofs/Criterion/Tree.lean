import Geodescent.Criterion.Basic

/-! Trees of criteria: their nodes, their atoms, and what a tree says when its atoms are true or
false. Members stand before the node that they belong to. -/
namespace Geodescent.Criterion
variable {ε α : Type}

def children : Criterion ε α → List (Criterion ε α)
  | .atom _ _ => []
  | .all _ members => members
  | .any _ members => members

theorem children_all (id : Nat) (members : List (Criterion ε α)) :
    (all id members).children = members := rfl

theorem children_any (id : Nat) (members : List (Criterion ε α)) :
    (any id members).children = members := rfl

@[elab_as_elim]
theorem induct {P : Criterion ε α → Prop} (node : ∀ c, (∀ e ∈ c.children, P e) → P c)
    (c : Criterion ε α) : P c := by
  refine Criterion.rec (motive_1 := P) (motive_2 := fun cs => ∀ c ∈ cs, P c) ?_ ?_ ?_ ?_ ?_ c
  · exact fun id check => node (.atom id check) fun e he => absurd he List.not_mem_nil
  · exact fun id members ih => node (.all id members) ih
  · exact fun id members ih => node (.any id members) ih
  · exact fun c hc => absurd hc List.not_mem_nil
  · intro c cs hc hcs d hd
    rcases List.mem_cons.mp hd with rfl | hd
    · exact hc
    · exact hcs d hd

mutual
def nodes : Criterion ε α → List (Criterion ε α)
  | .atom id check => [.atom id check]
  | .all id members => nodesEach members ++ [.all id members]
  | .any id members => nodesEach members ++ [.any id members]

def nodesEach : List (Criterion ε α) → List (Criterion ε α)
  | [] => []
  | c :: cs => nodes c ++ nodesEach cs
end

mutual
/-- What a tree says when its atoms are true or false. -/
def holds (truth : Nat → Bool) : Criterion ε α → Bool
  | .atom id _ => truth id
  | .all _ members => holdsAll truth members
  | .any _ members => holdsAny truth members

def holdsAll (truth : Nat → Bool) : List (Criterion ε α) → Bool
  | [] => true
  | c :: cs => holds truth c && holdsAll truth cs

def holdsAny (truth : Nat → Bool) : List (Criterion ε α) → Bool
  | [] => false
  | c :: cs => holds truth c || holdsAny truth cs
end

theorem nodesEach_eq_flatMap (cs : List (Criterion ε α)) : nodesEach cs = cs.flatMap nodes := by
  induction cs with
  | nil => rfl
  | cons c cs ih => rw [nodesEach, List.flatMap_cons, ih]

theorem holdsAll_eq_all (truth : Nat → Bool) (cs : List (Criterion ε α)) :
    holdsAll truth cs = cs.all (holds truth) := by
  induction cs with
  | nil => rfl
  | cons c cs ih => rw [holdsAll, List.all_cons, ih]

theorem holdsAny_eq_any (truth : Nat → Bool) (cs : List (Criterion ε α)) :
    holdsAny truth cs = cs.any (holds truth) := by
  induction cs with
  | nil => rfl
  | cons c cs ih => rw [holdsAny, List.any_cons, ih]

theorem nodes_eq (c : Criterion ε α) : c.nodes = nodesEach c.children ++ [c] := by
  cases c <;> rfl

theorem mem_nodes_self (c : Criterion ε α) : c ∈ c.nodes := by
  rw [nodes_eq]
  exact List.mem_append_right _ (List.mem_singleton_self c)

theorem mem_nodesEach {d : Criterion ε α} {cs : List (Criterion ε α)} :
    d ∈ nodesEach cs ↔ ∃ c ∈ cs, d ∈ c.nodes := by
  rw [nodesEach_eq_flatMap, List.mem_flatMap]

theorem mem_nodes {c d : Criterion ε α} : d ∈ c.nodes ↔ d = c ∨ ∃ e ∈ c.children, d ∈ e.nodes := by
  rw [nodes_eq, List.mem_append, List.mem_singleton, mem_nodesEach, or_comm]

theorem mem_nodes_child {c e : Criterion ε α} (he : e ∈ c.children) : e ∈ c.nodes :=
  mem_nodes.mpr (.inr ⟨e, he, mem_nodes_self e⟩)

theorem nodes_subset {c d : Criterion ε α} (hd : d ∈ c.nodes) : d.nodes ⊆ c.nodes := by
  induction c using induct with
  | node c ih =>
    rcases mem_nodes.mp hd with rfl | ⟨f, hf, hdf⟩
    · exact fun e he => he
    · exact fun e he => mem_nodes.mpr (.inr ⟨f, hf, ih f hf hdf he⟩)

theorem mem_nodes_of_child {c d e : Criterion ε α} (hd : d ∈ c.nodes) (he : e ∈ d.children) :
    e ∈ c.nodes := nodes_subset hd (mem_nodes_child he)

def ids (c : Criterion ε α) : List Nat := c.nodes.map id

def idsEach (cs : List (Criterion ε α)) : List Nat := (nodesEach cs).map id

def Distinct (c : Criterion ε α) : Prop := c.ids.Nodup

instance (c : Criterion ε α) : Decidable c.Distinct := inferInstanceAs (Decidable c.ids.Nodup)

theorem ids_eq (c : Criterion ε α) : c.ids = idsEach c.children ++ [c.id] := by
  rw [ids, nodes_eq, List.map_append, idsEach]
  rfl

theorem idsEach_cons (c : Criterion ε α) (cs : List (Criterion ε α)) :
    idsEach (c :: cs) = c.ids ++ idsEach cs := List.map_append

theorem id_mem_ids {c d : Criterion ε α} (h : d ∈ c.nodes) : d.id ∈ c.ids := List.mem_map_of_mem h

theorem id_mem_idsEach {d : Criterion ε α} {cs : List (Criterion ε α)} (h : d ∈ nodesEach cs) :
    d.id ∈ idsEach cs := List.mem_map_of_mem h

def atom? : Criterion ε α → Option (Nat × Check ε α)
  | .atom id check => some (id, check)
  | _ => none

def atoms (c : Criterion ε α) : List (Nat × Check ε α) := c.nodes.filterMap atom?

theorem mem_atoms {c : Criterion ε α} {i : Nat} {check : Check ε α} :
    (i, check) ∈ c.atoms ↔ .atom i check ∈ c.nodes := by
  constructor
  · intro h
    obtain ⟨d, hd, hatom⟩ := List.mem_filterMap.mp h
    cases d with
    | atom id check =>
      cases hatom
      exact hd
    | all id members => cases hatom
    | any id members => cases hatom
  · exact fun h => List.mem_filterMap.mpr ⟨_, h, rfl⟩

theorem atoms_subset {c d : Criterion ε α} (hd : d ∈ c.nodes) : d.atoms ⊆ c.atoms := by
  intro x hx
  obtain ⟨e, he, hex⟩ := List.mem_filterMap.mp hx
  exact List.mem_filterMap.mpr ⟨e, nodes_subset hd he, hex⟩

/-- Every combination in a tree has members. -/
def Filled (c : Criterion ε α) : Prop := ∀ d ∈ c.nodes, d.children = [] → d.atom?.isSome = true

instance (c : Criterion ε α) : Decidable c.Filled :=
  inferInstanceAs (Decidable (∀ d ∈ c.nodes, d.children = [] → d.atom?.isSome = true))

theorem requireEach_ne_nil [Scalar α] {given : List (Member ε α)} {cs : List (Criterion ε α)}
    (hgiven : given ≠ []) (h : requireEach given = .ok cs) : cs ≠ [] := by
  rcases given with _ | ⟨_ | d | ms, rest⟩
  · exact absurd rfl hgiven
  · obtain ⟨others, -, hcs⟩ := bind_eq_ok_iff.mp h
    rw [← Except.ok.inj hcs]
    exact List.cons_ne_nil _ _
  · cases h
  · cases h

theorem members_ne_nil [Scalar α] {given : List (Member ε α)} {cs : List (Criterion ε α)}
    (h : members given = .ok cs) : cs ≠ [] := by
  unfold members at h
  split at h
  · cases h
  · exact requireEach_ne_nil ‹_› h

theorem filled_of_children {c : Criterion ε α} (hc : c.children ≠ [])
    (h : ∀ e ∈ c.children, e.Filled) : c.Filled := by
  intro d hd hnil
  rcases mem_nodes.mp hd with rfl | ⟨e, he, hde⟩
  · exact absurd hnil hc
  · exact h e he d hde hnil

theorem filled_makeAll [Scalar α] {id : Nat} {given : List (Member ε α)} {c : Criterion ε α}
    (hc : makeAll id given = .ok c) (h : ∀ e ∈ c.children, e.Filled) : c.Filled := by
  unfold makeAll at hc
  rcases hm : members given with e | cs
  · rw [hm] at hc
    cases hc
  · rw [hm] at hc
    cases hc
    exact filled_of_children (members_ne_nil hm) h

theorem filled_makeAny [Scalar α] {id : Nat} {given : List (Member ε α)} {c : Criterion ε α}
    (hc : makeAny id given = .ok c) (h : ∀ e ∈ c.children, e.Filled) : c.Filled := by
  unfold makeAny at hc
  rcases hm : members given with e | cs
  · rw [hm] at hc
    cases hc
  · rw [hm] at hc
    cases hc
    exact filled_of_children (members_ne_nil hm) h

theorem atoms_eq (c : Criterion ε α) :
    c.atoms = c.children.flatMap atoms ++ [c].filterMap atom? := by
  rw [atoms, nodes_eq, List.filterMap_append, nodesEach_eq_flatMap, List.filterMap_flatMap]
  rfl

theorem Distinct.atoms {c : Criterion ε α} (h : c.Distinct) : (c.atoms.map Prod.fst).Nodup := by
  have sub : ∀ ds : List (Criterion ε α),
      ((ds.filterMap atom?).map Prod.fst).Sublist (ds.map id) := by
    intro ds
    induction ds with
    | nil => exact .slnil
    | cons d ds ih =>
      cases d with
      | atom id check => exact ih.cons_cons id
      | all id members => exact ih.cons id
      | any id members => exact ih.cons id
  exact h.sublist (sub c.nodes)

end Geodescent.Criterion
