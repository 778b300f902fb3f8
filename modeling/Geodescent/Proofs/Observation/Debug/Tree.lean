import Geodescent.Debug.Basic
import Geodescent.Proofs.Observation.Leaf

/-! Trees of debug actions: their leaves from left to right, with the wrappers above them, and the
leaves among them that remember where the run was. -/
namespace Geodescent.DebugAction

@[elab_as_elim]
theorem induct {P : DebugAction → Prop}
    (leaf : ∀ id kind cadence outlet, P (.leaf id kind cadence outlet))
    (group : ∀ members, (∀ a ∈ members, P a) → P (.group members))
    (every : ∀ cadence a, P a → P (.every cadence a)) (a : DebugAction) : P a := by
  refine DebugAction.rec (motive_1 := P) (motive_2 := fun as => ∀ a ∈ as, P a) leaf group every
    ?_ ?_ a
  · intro a ha
    exact absurd ha List.not_mem_nil
  · intro a as ha has b hb
    rcases List.mem_cons.mp hb with rfl | hb
    · exact ha
    · exact has b hb

/-- What a leaf prints and the stream of its own, if it has one. -/
structure Printer where
  kind : DebugKind
  outlet : Option String

mutual
def leaves : DebugAction → List (Leaf Printer)
  | .leaf id kind cadence outlet => [⟨id, ⟨kind, outlet⟩, cadence, []⟩]
  | .group members => leavesEach members
  | .every cadence a => (leaves a).map (Leaf.under cadence)

def leavesEach : List DebugAction → List (Leaf Printer)
  | [] => []
  | a :: as => leaves a ++ leavesEach as
end

section Ids
variable {a : DebugAction} {as : List DebugAction}

def ids (a : DebugAction) : List Nat := a.leaves.map Leaf.id

def idsEach (as : List DebugAction) : List Nat := (leavesEach as).map Leaf.id

def Distinct (a : DebugAction) : Prop := a.ids.Nodup

instance (a : DebugAction) : Decidable a.Distinct := inferInstanceAs (Decidable a.ids.Nodup)

@[simp] theorem ids_every (cadence : Cadence) (a : DebugAction) :
    (every cadence a).ids = a.ids := by
  have hid : Leaf.id ∘ Leaf.under cadence = (Leaf.id : Leaf Printer → Nat) := rfl
  rw [ids, leaves, List.map_map, hid, ids]

theorem idsEach_cons (a : DebugAction) (as : List DebugAction) :
    idsEach (a :: as) = a.ids ++ idsEach as := List.map_append

theorem distinct_cons (h : (idsEach (a :: as)).Nodup) :
    a.Distinct ∧ (idsEach as).Nodup ∧ ∀ i ∈ a.ids, i ∉ idsEach as := by
  rw [idsEach_cons] at h
  obtain ⟨ha, has, hdisjoint⟩ := List.nodup_append.mp h
  exact ⟨ha, has, fun i hi hmem => hdisjoint i hi i hmem rfl⟩

end Ids

section Watchers

def Watches : DebugKind → Bool
  | .change _ => true
  | _ => false

def watchersOf (ℓs : List (Leaf Printer)) : List Nat :=
  (ℓs.filter fun ℓ => Watches ℓ.kind.kind).map Leaf.id

def watchers (a : DebugAction) : List Nat := watchersOf a.leaves

theorem mem_watchers {a : DebugAction} {ℓ : Leaf Printer} (h : ℓ ∈ a.leaves) {label : String}
    (hkind : ℓ.kind.kind = .change label) : ℓ.id ∈ a.watchers :=
  List.mem_map_of_mem (List.mem_filter.mpr ⟨h, by rw [hkind]; rfl⟩)

theorem watchersOf_append (ℓs ℓs' : List (Leaf Printer)) :
    watchersOf (ℓs ++ ℓs') = watchersOf ℓs ++ watchersOf ℓs' := by
  simp [watchersOf]

theorem watchersOf_under (cadence : Cadence) (ℓs : List (Leaf Printer)) :
    watchersOf (ℓs.map (Leaf.under cadence)) = watchersOf ℓs := by
  rw [watchersOf, List.filter_map, List.map_map]
  rfl

theorem mem_leavesEach {ℓ : Leaf Printer} {as : List DebugAction} :
    ℓ ∈ leavesEach as ↔ ∃ a ∈ as, ℓ ∈ a.leaves := by
  induction as with
  | nil => simp [leavesEach]
  | cons a as ih => simp [leavesEach, ih]

theorem watchers_subset_group {a : DebugAction} {as : List DebugAction} (h : a ∈ as) :
    a.watchers ⊆ (group as).watchers := by
  intro i hi
  obtain ⟨ℓ, hℓ, rfl⟩ := List.mem_map.mp hi
  obtain ⟨hleaf, hkind⟩ := List.mem_filter.mp hℓ
  exact List.mem_map_of_mem (List.mem_filter.mpr ⟨mem_leavesEach.mpr ⟨a, h, hleaf⟩, hkind⟩)

theorem watchers_subset_ids (a : DebugAction) : a.watchers ⊆ a.ids := by
  intro i hi
  obtain ⟨ℓ, hℓ, rfl⟩ := List.mem_map.mp hi
  exact List.mem_map_of_mem (List.mem_filter.mp hℓ).1

end Watchers
end Geodescent.DebugAction
