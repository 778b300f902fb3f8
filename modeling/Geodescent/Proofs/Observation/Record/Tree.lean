import Geodescent.Proofs.Observation.Leaf
import Geodescent.Record.Basic

/-! Trees of record actions: their nodes, their leaves, and the tuples that groups make of what
their leaves capture. A wrapper is no node, since it shares the values of the action it wraps. -/
namespace Geodescent.RecordAction
variable {α : Type}

@[elab_as_elim]
theorem induct {P : RecordAction → Prop} (leaf : ∀ id kind cadence, P (.leaf id kind cadence))
    (group : ∀ id members, (∀ a ∈ members, P a) → P (.group id members))
    (every : ∀ cadence a, P a → P (.every cadence a)) (a : RecordAction) : P a := by
  refine RecordAction.rec (motive_1 := P) (motive_2 := fun as => ∀ a ∈ as, P a) leaf group every
    ?_ ?_ a
  · intro a ha
    exact absurd ha List.not_mem_nil
  · intro a as ha has b hb
    rcases List.mem_cons.mp hb with rfl | hb
    · exact ha
    · exact has b hb

mutual
def nodes : RecordAction → List RecordAction
  | .leaf id kind cadence => [.leaf id kind cadence]
  | .group id members => .group id members :: nodesEach members
  | .every _ a => nodes a

def nodesEach : List RecordAction → List RecordAction
  | [] => []
  | a :: as => nodes a ++ nodesEach as
end

mutual
/-- The leaves of a tree from left to right, with the wrappers above them. -/
def leaves : RecordAction → List (Leaf RecordKind)
  | .leaf id kind cadence => [⟨id, kind, cadence, []⟩]
  | .group _ members => leavesEach members
  | .every cadence a => (leaves a).map (Leaf.under cadence)

def leavesEach : List RecordAction → List (Leaf RecordKind)
  | [] => []
  | a :: as => leaves a ++ leavesEach as
end

def tuple : List (Datum α) → List (Datum α)
  | [] => []
  | ds => [.list ds]

mutual
/-- What an action hands up to its group where its leaves capture `values`: a leaf its value, a
group one tuple, and both nothing where no leaf captures anything. -/
def entries (values : Nat → List (Datum α)) : RecordAction → List (Datum α)
  | .leaf id _ _ => values id
  | .group _ members => tuple (entriesEach values members)
  | .every _ a => entries values a

def entriesEach (values : Nat → List (Datum α)) : List RecordAction → List (Datum α)
  | [] => []
  | a :: as => entries values a ++ entriesEach values as
end

theorem tuple_eq_nil_iff {ds : List (Datum α)} : tuple ds = [] ↔ ds = [] := by
  cases ds <;> simp [tuple]

section Nodes

def ids (a : RecordAction) : List Nat := a.nodes.map id

def idsEach (as : List RecordAction) : List Nat := (nodesEach as).map id

def Distinct (a : RecordAction) : Prop := a.ids.Nodup

instance (a : RecordAction) : Decidable a.Distinct := inferInstanceAs (Decidable a.ids.Nodup)

@[simp] theorem ids_group (id : Nat) (members : List RecordAction) :
    (group id members).ids = id :: idsEach members := rfl

theorem idsEach_cons (a : RecordAction) (as : List RecordAction) :
    idsEach (a :: as) = a.ids ++ idsEach as := List.map_append

theorem id_mem_ids {a b : RecordAction} (h : b ∈ a.nodes) : b.id ∈ a.ids := List.mem_map_of_mem h

theorem id_mem_idsEach {b : RecordAction} {as : List RecordAction} (h : b ∈ nodesEach as) :
    b.id ∈ idsEach as := List.mem_map_of_mem h

theorem own_id_mem_ids (a : RecordAction) : a.id ∈ a.ids := by
  induction a using induct with
  | leaf id kind cadence => exact List.mem_singleton_self id
  | group id members ih => exact List.mem_cons_self
  | every cadence a ih => exact ih

theorem mem_nodesEach {b : RecordAction} {as : List RecordAction} :
    b ∈ nodesEach as ↔ ∃ a ∈ as, b ∈ a.nodes := by
  induction as with
  | nil => simp [nodesEach]
  | cons a as ih => simp [nodesEach, ih]

theorem mem_idsEach {i : Nat} {as : List RecordAction} : i ∈ idsEach as ↔ ∃ a ∈ as, i ∈ a.ids := by
  induction as with
  | nil => simp [idsEach, nodesEach]
  | cons a as ih => simp [idsEach_cons, ih]

theorem ids_subset_of_mem_nodes {a b : RecordAction} (h : b ∈ a.nodes) : b.ids ⊆ a.ids := by
  induction a using induct with
  | leaf id kind cadence =>
    rw [List.mem_singleton.mp h]
    exact List.Subset.refl _
  | group id members ih =>
    rcases List.mem_cons.mp h with rfl | hb
    · exact List.Subset.refl _
    · obtain ⟨a, ha, hb⟩ := mem_nodesEach.mp hb
      exact fun i hi => List.mem_cons_of_mem id (mem_idsEach.mpr ⟨a, ha, ih a ha hb hi⟩)
  | every cadence a ih =>
    have hb : b.ids ⊆ a.ids := ih h
    exact hb

theorem distinct_group {id : Nat} {members : List RecordAction} (h : (group id members).Distinct) :
    id ∉ idsEach members ∧ (idsEach members).Nodup := List.nodup_cons.mp h

theorem distinct_cons {a : RecordAction} {as : List RecordAction} (h : (idsEach (a :: as)).Nodup) :
    a.Distinct ∧ (idsEach as).Nodup ∧ ∀ i ∈ a.ids, i ∉ idsEach as := by
  rw [idsEach_cons] at h
  obtain ⟨ha, has, hdisjoint⟩ := List.nodup_append.mp h
  exact ⟨ha, has, fun i hi hmem => hdisjoint i hi i hmem rfl⟩

end Nodes

section Leaves
variable {ℓ : Leaf RecordKind} {a : RecordAction} {as : List RecordAction}

@[simp] theorem leaves_group (id : Nat) (members : List RecordAction) :
    (group id members).leaves = leavesEach members := rfl

@[simp] theorem leaves_every (cadence : Cadence) (a : RecordAction) :
    (every cadence a).leaves = a.leaves.map (Leaf.under cadence) := rfl

theorem mem_leavesEach : ℓ ∈ leavesEach as ↔ ∃ a ∈ as, ℓ ∈ a.leaves := by
  induction as with
  | nil => simp [leavesEach]
  | cons a as ih => simp [leavesEach, ih]

theorem leaf_id_mem_ids (h : ℓ ∈ a.leaves) : ℓ.id ∈ a.ids := by
  induction a using induct generalizing ℓ with
  | leaf id kind cadence =>
    rw [List.mem_singleton.mp h]
    exact List.mem_singleton_self id
  | group id members ih =>
    obtain ⟨a, ha, hℓ⟩ := mem_leavesEach.mp h
    exact List.mem_cons_of_mem id (mem_idsEach.mpr ⟨a, ha, ih a ha hℓ⟩)
  | every cadence a ih =>
    obtain ⟨ℓ', hℓ', rfl⟩ := List.mem_map.mp h
    have hid : ℓ'.id ∈ a.ids := ih hℓ'
    exact hid

theorem leaf_mem_nodes (h : ℓ ∈ a.leaves) : leaf ℓ.id ℓ.kind ℓ.cadence ∈ a.nodes := by
  induction a using induct generalizing ℓ with
  | leaf id kind cadence =>
    rw [List.mem_singleton.mp h]
    exact List.mem_singleton_self _
  | group id members ih =>
    obtain ⟨a, ha, hℓ⟩ := mem_leavesEach.mp h
    exact List.mem_cons_of_mem _ (mem_nodesEach.mpr ⟨a, ha, ih a ha hℓ⟩)
  | every cadence a ih =>
    obtain ⟨ℓ', hℓ', rfl⟩ := List.mem_map.mp h
    have hnode := ih hℓ'
    exact hnode

theorem leaf_id_mem_idsEach (h : ℓ ∈ leavesEach as) : ℓ.id ∈ idsEach as := by
  obtain ⟨a, ha, hℓ⟩ := mem_leavesEach.mp h
  exact mem_idsEach.mpr ⟨a, ha, leaf_id_mem_ids hℓ⟩

theorem exists_leaf_of_node {b : RecordAction} (hb : b ∈ a.nodes) (h : ℓ ∈ b.leaves) :
    ∃ ℓ' ∈ a.leaves, ℓ'.id = ℓ.id := by
  induction a using induct with
  | leaf id kind cadence =>
    rw [List.mem_singleton.mp hb] at h
    exact ⟨ℓ, h, rfl⟩
  | group id members ih =>
    rcases List.mem_cons.mp hb with rfl | hb
    · exact ⟨ℓ, h, rfl⟩
    · obtain ⟨a, ha, hb⟩ := mem_nodesEach.mp hb
      obtain ⟨ℓ', hℓ', hid⟩ := ih a ha hb
      exact ⟨ℓ', mem_leavesEach.mpr ⟨a, ha, hℓ'⟩, hid⟩
  | every cadence a ih =>
    obtain ⟨ℓ', hℓ', hid⟩ := ih hb
    exact ⟨ℓ'.under cadence, List.mem_map_of_mem hℓ', hid⟩

theorem leaf_ids_sublist (a : RecordAction) : (a.leaves.map Leaf.id).Sublist a.ids := by
  induction a using induct with
  | leaf id kind cadence => exact .refl _
  | group id members ih =>
    have hmembers : ((leavesEach members).map Leaf.id).Sublist (idsEach members) := by
      induction members with
      | nil => exact .refl _
      | cons a as ih' =>
        rw [leavesEach, List.map_append, idsEach_cons]
        exact (ih a List.mem_cons_self).append (ih' fun b hb => ih b (List.mem_cons_of_mem a hb))
    exact hmembers.cons id
  | every cadence a ih =>
    rw [leaves_every, List.map_map]
    exact ih

theorem entriesEach_congr {values values' : Nat → List (Datum α)}
    (h : ∀ a ∈ as, entries values a = entries values' a) :
    entriesEach values as = entriesEach values' as := by
  induction as with
  | nil => rfl
  | cons a as ih =>
    rw [entriesEach, entriesEach, h a List.mem_cons_self,
      ih fun b hb => h b (List.mem_cons_of_mem a hb)]

theorem entries_congr {values values' : Nat → List (Datum α)}
    (h : ∀ ℓ ∈ a.leaves, values ℓ.id = values' ℓ.id) : entries values a = entries values' a := by
  induction a using induct with
  | leaf id kind cadence => exact h ⟨id, kind, cadence, []⟩ (List.mem_singleton_self _)
  | group id members ih =>
    refine congrArg tuple (entriesEach_congr fun a ha => ih a ha fun ℓ hℓ => ?_)
    exact h ℓ (mem_leavesEach.mpr ⟨a, ha, hℓ⟩)
  | every cadence a ih =>
    refine ih fun ℓ hℓ => ?_
    exact h (ℓ.under cadence) (List.mem_map_of_mem hℓ)

theorem entries_eq_nil_iff {values : Nat → List (Datum α)} :
    entries values a = [] ↔ ∀ ℓ ∈ a.leaves, values ℓ.id = [] := by
  induction a using induct with
  | leaf id kind cadence => simp [entries, leaves]
  | group id members ih =>
    have hmembers : entriesEach values members = [] ↔
        ∀ ℓ ∈ leavesEach members, values ℓ.id = [] := by
      induction members with
      | nil => simp [entriesEach, leavesEach]
      | cons a as ih' =>
        have ha := ih a List.mem_cons_self
        have has := ih' fun b hb => ih b (List.mem_cons_of_mem a hb)
        simp only [entriesEach, leavesEach, List.append_eq_nil_iff, List.forall_mem_append, ha, has]
    rw [entries, tuple_eq_nil_iff, hmembers, leaves_group]
  | every cadence a ih => simp [entries, ih, Leaf.under]

theorem entries_ne_nil_iff {values : Nat → List (Datum α)} {P : Leaf RecordKind → Prop}
    (hsome : ∀ ℓ ∈ a.leaves, P ℓ → values ℓ.id ≠ [])
    (hnone : ∀ ℓ ∈ a.leaves, ¬ P ℓ → values ℓ.id = []) {b : RecordAction} (hb : b ∈ a.nodes) :
    entries values b ≠ [] ↔ ∃ ℓ ∈ a.leaves, ℓ.id ∈ b.leaves.map Leaf.id ∧ P ℓ := by
  rw [Ne, entries_eq_nil_iff]
  constructor
  · intro hvalues
    refine Classical.byContradiction fun hall => hvalues fun ℓ hℓ => ?_
    obtain ⟨ℓ', hℓ', hid⟩ := exists_leaf_of_node hb hℓ
    rw [← hid]
    refine hnone ℓ' hℓ' fun hP => hall ⟨ℓ', hℓ', ?_, hP⟩
    rw [hid]
    exact List.mem_map_of_mem hℓ
  · rintro ⟨ℓ, hℓ, hmem, hP⟩ hnil
    obtain ⟨ℓ', hℓ', hid⟩ := List.mem_map.mp hmem
    have hempty : values ℓ.id = [] := hid ▸ hnil ℓ' hℓ'
    exact hsome ℓ hℓ hP hempty

def watchersOf (leaves : List (Leaf RecordKind)) : List Nat :=
  (leaves.filter fun ℓ => ℓ.kind = .quantity .change).map Leaf.id

def watchers (a : RecordAction) : List Nat := watchersOf a.leaves

theorem mem_watchers (h : ℓ ∈ a.leaves) (hkind : ℓ.kind = .quantity .change) :
    ℓ.id ∈ a.watchers :=
  List.mem_map_of_mem (List.mem_filter.mpr ⟨h, decide_eq_true hkind⟩)

theorem watchersOf_append (ℓs ℓs' : List (Leaf RecordKind)) :
    watchersOf (ℓs ++ ℓs') = watchersOf ℓs ++ watchersOf ℓs' := by
  simp [watchersOf]

theorem watchersOf_under (cadence : Cadence) (ℓs : List (Leaf RecordKind)) :
    watchersOf (ℓs.map (Leaf.under cadence)) = watchersOf ℓs := by
  rw [watchersOf, List.filter_map, List.map_map]
  rfl

theorem watchers_subset_group {id : Nat} (h : a ∈ as) : a.watchers ⊆ (group id as).watchers := by
  intro i hi
  obtain ⟨ℓ, hℓ, rfl⟩ := List.mem_map.mp hi
  obtain ⟨hleaf, hkind⟩ := List.mem_filter.mp hℓ
  exact List.mem_map_of_mem (List.mem_filter.mpr ⟨mem_leavesEach.mpr ⟨a, h, hleaf⟩, hkind⟩)

theorem watchers_subset_ids (a : RecordAction) : a.watchers ⊆ a.ids := by
  intro i hi
  obtain ⟨ℓ, hℓ, rfl⟩ := List.mem_map.mp hi
  exact leaf_id_mem_ids (List.mem_filter.mp hℓ).1

end Leaves
end Geodescent.RecordAction
