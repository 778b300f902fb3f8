import Geodescent.Settings

/-! Changes of settings. Values are not looked at, so that no change of known settings is refused:
`configure_known`. A setting has the last value that it was given, or the one from before:
`get?_of_configure`. -/
namespace Geodescent.Settings
variable {α : Type} {s t : Settings α} {name other : String} {v : Datum α}
  {changes : List (String × Datum α)}

theorem get?_put_self (h : name ∈ settingNames) : (s.put name v).get? name = some v := by
  simp only [settingNames, List.mem_cons, List.not_mem_nil, or_false] at h
  rcases h with rfl | rfl | rfl | rfl <;> rfl

theorem get?_put_of_ne (h : other ≠ name) : (s.put name v).get? other = s.get? other := by
  unfold put
  split
  case h_5 => rfl
  all_goals
    unfold get?
    split <;> first | rfl | exact absurd rfl h

def lastGiven? (changes : List (String × Datum α)) (name : String) : Option (Datum α) :=
  changes.reverse.lookup name

theorem lastGiven?_cons (change : String × Datum α) :
    lastGiven? (change :: changes) name =
      (lastGiven? changes name).or (if name = change.1 then some change.2 else none) := by
  have hlast : [change].lookup name = if name = change.1 then some change.2 else none := by
    rw [List.lookup_cons]
    by_cases h : name = change.1
    · rw [if_pos h, beq_iff_eq.mpr h]
    · rw [if_neg h, beq_eq_false_iff_ne.mpr h]
      rfl
  rw [lastGiven?, List.reverse_cons, List.lookup_append, hlast]
  rfl

theorem get?_foldl_put (h : name ∈ settingNames) :
    (changes.foldl (fun s change => s.put change.1 change.2) s).get? name =
      (lastGiven? changes name).or (s.get? name) := by
  induction changes generalizing s with
  | nil => rfl
  | cons change changes ih =>
    rw [List.foldl_cons, ih, lastGiven?_cons, Option.or_assoc]
    congr 1
    split
    · rename_i hname
      subst hname
      exact get?_put_self h
    · exact get?_put_of_ne ‹_›

theorem unknown_eq_nil (known : ∀ change ∈ changes, change.1 ∈ settingNames) :
    unknown changes = [] := by
  have hnone : ((changes.map Prod.fst).filter fun name => !settingNames.contains name) = [] := by
    rw [List.filter_eq_nil_iff]
    intro name hname
    obtain ⟨change, hchange, rfl⟩ := List.mem_map.mp hname
    simpa using known change hchange
  rw [unknown, hnone, List.eraseDups_nil, List.mergeSort_nil]

variable [Scalar α] {entry : JournalEntry}

theorem configure_known (known : ∀ change ∈ changes, change.1 ∈ settingNames) :
    ∃ t entry, s.configure changes = .ok (t, entry) := by
  have hreserved : (changes.map Prod.fst).contains reservedName = false := by
    rw [Bool.eq_false_iff, Ne, List.contains_iff_mem]
    intro hmem
    obtain ⟨change, hchange, hname⟩ := List.mem_map.mp hmem
    have hknown := known change hchange
    rw [hname] at hknown
    revert hknown
    decide
  unfold configure
  rw [hreserved, unknown_eq_nil known]
  exact ⟨_, _, rfl⟩

theorem configure_eq_ok (h : s.configure changes = .ok (t, entry)) :
    t = changes.foldl (fun s change => s.put change.1 change.2) s := by
  unfold configure at h
  split at h
  · cases h
  · cases h
  · cases h
    rfl

theorem configure_single (h : name ∈ settingNames) (v : Datum α) :
    ∃ entry, s.configure [(name, v)] = .ok (s.put name v, entry) := by
  have known : ∀ change ∈ [(name, v)], change.1 ∈ settingNames := by
    intro change hchange
    rw [List.mem_singleton.mp hchange]
    exact h
  obtain ⟨t, entry, configured⟩ := configure_known (s := s) known
  rw [configure_eq_ok configured] at configured
  exact ⟨entry, configured⟩

theorem get?_of_configure (h : s.configure changes = .ok (t, entry)) (hname : name ∈ settingNames) :
    t.get? name = (lastGiven? changes name).or (s.get? name) := by
  rw [configure_eq_ok h, get?_foldl_put hname]

end Geodescent.Settings
