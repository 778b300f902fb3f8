import Geodescent.Proofs.Criterion.Inquiry

/-! What is heard in a call: the reasons with which atoms were found to hold. A call that succeeds
checks every atom once, so each of them is heard at most once. -/
namespace Geodescent
variable {ε α : Type}

namespace Event

def atom? : Event ε α → Option (Nat × Check ε α)
  | .checked id check _ => some (id, check)
  | .answered _ _ => none

def answer? : Event ε α → Option (Nat × Bool)
  | .answered id (.ok b) => some (id, b)
  | _ => none

def reason? (id : Nat) : Event ε α → Option String
  | .checked i _ (.ok (some (.ok reason))) => if i = id then some reason else none
  | _ => none

theorem reason?_of_ne {i id : Nat} (h : i ≠ id) (check : Check ε α)
    (finding : Except (Fault α) (Check.Finding α)) :
    (Event.checked i check finding).reason? id = none := by
  unfold reason?
  split
  · cases ‹Event.checked i check finding = _›
    exact if_neg h
  · rfl

theorem mem_of_checked {es : List (Event ε α)} {i : Nat} {check : Check ε α}
    {finding : Except (Fault α) (Check.Finding α)} (h : .checked i check finding ∈ es) :
    i ∈ (es.filterMap atom?).map Prod.fst :=
  List.mem_map.mpr ⟨(i, check), List.mem_filterMap.mpr ⟨_, h, rfl⟩, rfl⟩

end Event

/-- The reason with which an atom was found to hold in a call. -/
def heard (es : List (Event ε α)) (id : Nat) : Option String := es.findSome? (Event.reason? id)

/-- Every atom was found to hold for the reason given, or not to hold. -/
def Consistent (t : Nat → Option String) (es : List (Event ε α)) : Prop :=
  ∀ id check finding, .checked id check finding ∈ es → finding = .ok ((t id).map .ok)

theorem consistent_append_iff {t : Nat → Option String} {es fs : List (Event ε α)} :
    Consistent t (es ++ fs) ↔ Consistent t es ∧ Consistent t fs := by
  constructor
  · intro h
    exact ⟨fun i c f hf => h i c f (List.mem_append_left _ hf),
      fun i c f hf => h i c f (List.mem_append_right _ hf)⟩
  · rintro ⟨hes, hfs⟩ i c f hf
    rcases List.mem_append.mp hf with hf | hf
    · exact hes i c f hf
    · exact hfs i c f hf

theorem heard_eq_none {es : List (Event ε α)} {id : Nat}
    (h : id ∉ (es.filterMap Event.atom?).map Prod.fst) : heard es id = none := by
  apply List.findSome?_eq_none_iff.mpr
  rintro (⟨i, check, finding⟩ | ⟨i, answer⟩) he
  · have hne : i ≠ id := by
      rintro rfl
      exact h (Event.mem_of_checked he)
    exact Event.reason?_of_ne hne check finding
  · rfl

theorem consistent_heard {es : List (Event ε α)}
    (distinct : ((es.filterMap Event.atom?).map Prod.fst).Nodup)
    (found : ∀ id check finding, .checked id check finding ∈ es →
      ∃ r : Option String, finding = .ok (r.map .ok)) : Consistent (heard es) es := by
  induction es with
  | nil => exact fun i c f hf => absurd hf List.not_mem_nil
  | cons e es ih =>
    have rest := fun d => ih d fun i c f hf => found i c f (List.mem_cons_of_mem e hf)
    intro i check finding hf
    cases e with
    | answered id answer =>
      have hf := (List.mem_cons.mp hf).resolve_left nofun
      exact rest distinct i check finding hf
    | checked id first result =>
      obtain ⟨hid, hrest⟩ := List.nodup_cons.mp distinct
      rcases List.mem_cons.mp hf with h | hf
      · cases h
        obtain ⟨r, rfl⟩ := found _ _ _ List.mem_cons_self
        have hnone : heard es i = none := heard_eq_none hid
        cases r with
        | none =>
          change Except.ok none = Except.ok ((heard es i).map Except.ok)
          rw [hnone]
          rfl
        | some reason => simp [heard, Event.reason?]
      · -- another atom was checked first, which is not what is heard of this one
        have hne : id ≠ i := fun h => hid (h ▸ Event.mem_of_checked hf)
        have hskip : (Event.checked id first result).reason? i = none :=
          Event.reason?_of_ne hne first result
        have heq : heard (.checked id first result :: es) i = heard es i := by
          rw [heard, List.findSome?_cons, hskip]
          rfl
        rw [heq]
        exact rest hrest i check finding hf

namespace Criterion
variable [Scalar α] {p : Problem ε α} {s : State α} {k : Int} {j j' : Judging ε α}
  {es : List (Event ε α)}

/-- The atoms that were checked, and what a call that succeeds can find. -/
structure Checked (atoms : List (Nat × Check ε α)) (es : List (Event ε α)) : Prop where
  once : es.filterMap Event.atom? = atoms
  found : ∀ id check finding, .checked id check finding ∈ es →
    ∃ r : Option String, finding = .ok (r.map .ok)

omit [Scalar α] in
theorem Checked.append {xs ys : List (Nat × Check ε α)} {es fs : List (Event ε α)}
    (hes : Checked xs es) (hfs : Checked ys fs) : Checked (xs ++ ys) (es ++ fs) := by
  refine ⟨?_, fun id check finding h => ?_⟩
  · rw [List.filterMap_append, hes.once, hfs.once]
  · rcases List.mem_append.mp h with h | h
    · exact hes.found id check finding h
    · exact hfs.found id check finding h

omit [Scalar α] in
theorem checked_answered (id : Nat) (answer : Except (Fault α) Bool) :
    Checked ([] : List (Nat × Check ε α)) [.answered id answer] := by
  refine ⟨rfl, fun i check finding h => ?_⟩
  cases List.mem_singleton.mp h

theorem checked_askEach {cs : List (Criterion ε α)} {bs : List Bool}
    (member : ∀ c ∈ cs, ∀ {j j' : Judging ε α} {es : List (Event ε α)} {b : Bool},
      Narrated.ask p s k c j = (es, .ok b j') → Checked c.atoms es)
    (h : Narrated.askEach p s k cs j = (es, .ok bs j')) : Checked (cs.flatMap atoms) es := by
  induction cs generalizing j bs es with
  | nil =>
    rw [Narrated.askEach] at h
    obtain ⟨-, -, rfl⟩ := Scribe.pure_eq_ok_iff.mp h
    exact ⟨rfl, fun _ _ _ hf => absurd hf List.not_mem_nil⟩
  | cons c cs ih =>
    obtain ⟨b, m, rest, fs, gs, hc, hcs, -, rfl⟩ := (askEach_cons_eq_ok_iff p s k).mp h
    rw [List.flatMap_cons]
    exact (member c List.mem_cons_self hc).append
      (ih (fun e he => member e (List.mem_cons_of_mem c he)) hcs)

theorem checked_ask {c : Criterion ε α} {b : Bool}
    (h : Narrated.ask p s k c j = (es, .ok b j')) : Checked c.atoms es := by
  induction c using induct generalizing b j j' es with
  | node c ih =>
    rw [atoms_eq]
    cases c with
    | atom id check =>
      rw [Narrated.ask] at h
      obtain ⟨finding, m, fs, hasked, hconclude, rfl⟩ := (gather_eq_ok_iff k).mp h
      obtain ⟨-, rfl⟩ := (test_eq_ok_iff p s k).mp hasked
      refine ⟨rfl, fun i first result hf => ?_⟩
      have hf := (List.mem_cons.mp hf).resolve_right fun h => by cases List.mem_singleton.mp h
      cases hf
      rcases conclude_eq_ok_iff.mp hconclude with ⟨reason, rfl, -⟩ | ⟨rfl, -⟩
      · exact ⟨some reason, rfl⟩
      · exact ⟨none, rfl⟩
    | all id members =>
      rw [Narrated.ask] at h
      obtain ⟨bs, m, fs, hasked, -, rfl⟩ := (gather_eq_ok_iff k).mp h
      exact (checked_askEach ih hasked).append (checked_answered id _)
    | any id members =>
      rw [Narrated.ask] at h
      obtain ⟨bs, m, fs, hasked, -, rfl⟩ := (gather_eq_ok_iff k).mp h
      exact (checked_askEach ih hasked).append (checked_answered id _)

theorem consistent_ask {c : Criterion ε α} {b : Bool} (distinct : c.Distinct)
    (h : Narrated.ask p s k c j = (es, .ok b j')) : Consistent (heard es) es := by
  have hchecked := checked_ask h
  refine consistent_heard ?_ hchecked.found
  rw [hchecked.once]
  exact distinct.atoms

end Criterion
end Geodescent
