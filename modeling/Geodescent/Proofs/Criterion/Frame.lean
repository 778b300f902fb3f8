import Geodescent.Proofs.Criterion.Closing
import Geodescent.Proofs.Criterion.Reuse

/-! What a call leaves alone. It touches the memory of no node outside the tree, so that two memories
which are level for several trees stay so while one tree after the other is asked:
`Judging.Level.onward`. -/
namespace Geodescent
variable {ε α : Type}

namespace Criterion

theorem nodesEach_append (cs ds : List (Criterion ε α)) :
    nodesEach (cs ++ ds) = nodesEach cs ++ nodesEach ds := by
  rw [nodesEach_eq_flatMap, List.flatMap_append, ← nodesEach_eq_flatMap,
    ← nodesEach_eq_flatMap]

theorem idsEach_append (cs ds : List (Criterion ε α)) :
    idsEach (cs ++ ds) = idsEach cs ++ idsEach ds := by
  rw [idsEach, nodesEach_append, List.map_append]
  rfl

theorem mem_idsEach {c : Criterion ε α} {cs : List (Criterion ε α)} {i : Nat} (hc : c ∈ cs)
    (hi : i ∈ c.ids) : i ∈ idsEach cs := by
  obtain ⟨d, hd, rfl⟩ := List.mem_map.mp hi
  exact id_mem_idsEach (mem_nodesEach.mpr ⟨c, hc, hd⟩)

variable [Scalar α] {p : Problem ε α} {s : State α} {k : Int} {i : Nat} {j j' : Judging ε α}

omit [Scalar α] in
theorem env_renewed (k : Int) (c : Criterion ε α) (j : Judging ε α) :
    (renewed k c j).env = j.env := by
  unfold renewed
  split
  · exact env_renew c j
  · rfl

omit [Scalar α] in
theorem conclude_frame {id : Nat} {finding : Check.Finding α} {b : Bool}
    (h : conclude id k finding j = .ok b j') :
    j'.env = j.env ∧ ∀ i, i ≠ id → j'.nodes.get i = j.nodes.get i := by
  rcases conclude_eq_ok_iff.mp h with ⟨reason, -, -, rfl⟩ | ⟨-, -, rfl⟩
  · exact ⟨rfl, fun i hi => nodes_revise_of_ne hi _ j⟩
  · exact ⟨rfl, fun i hi => nodes_revise_of_ne hi _ j⟩

theorem askEach_frame {cs : List (Criterion ε α)} {bs : List Bool} {es : List (Event ε α)}
    (member : ∀ c ∈ cs, ∀ {j j' : Judging ε α} {es : List (Event ε α)} {b : Bool},
      Narrated.ask p s k c j = (es, .ok b j') → i ∉ c.ids → j'.nodes.get i = j.nodes.get i)
    (h : Narrated.askEach p s k cs j = (es, .ok bs j')) (hi : i ∉ idsEach cs) :
    j'.nodes.get i = j.nodes.get i := by
  induction cs generalizing j bs es with
  | nil =>
    rw [Narrated.askEach] at h
    obtain ⟨-, rfl, -⟩ := Scribe.pure_eq_ok_iff.mp h
    rfl
  | cons c cs ih =>
    obtain ⟨b, m, rest, fs, gs, hc, hcs, -, -⟩ := (askEach_cons_eq_ok_iff p s k).mp h
    rw [idsEach_cons, List.mem_append, not_or] at hi
    rw [ih (fun e he => member e (List.mem_cons_of_mem c he)) hcs hi.2,
      member c List.mem_cons_self hc hi.1]

theorem ask_frame {c : Criterion ε α} {b : Bool} {es : List (Event ε α)}
    (h : Narrated.ask p s k c j = (es, .ok b j')) (hi : i ∉ c.ids) :
    j'.nodes.get i = j.nodes.get i := by
  induction c using induct generalizing b j j' es with
  | node c ih =>
    have hne : i ≠ c.id := fun hid => hi (hid ▸ id_mem_ids (mem_nodes_self c))
    have hbelow : i ∉ idsEach c.children := by
      rw [ids_eq, List.mem_append, not_or] at hi
      exact hi.1
    have members : ∀ e ∈ c.children, ∀ {j j' : Judging ε α} {es : List (Event ε α)} {b : Bool},
        Narrated.ask p s k e j = (es, .ok b j') → i ∉ e.ids → j'.nodes.get i = j.nodes.get i :=
      fun e he _ _ _ _ h hi => ih e he h hi
    -- a node outside is neither renewed nor told what to conclude
    rw [← nodes_renewed_of_not_mem (j := j) (k := k) hi]
    cases c with
    | atom id check =>
      rw [Narrated.ask] at h
      obtain ⟨finding, m, fs, hasked, hconclude, -⟩ := (gather_eq_ok_iff k).mp h
      obtain ⟨htest, -⟩ := (test_eq_ok_iff p s k).mp hasked
      rw [(conclude_frame hconclude).2 i hne, (nodes_test htest).1 hne]
    | all id cs =>
      rw [Narrated.ask] at h
      obtain ⟨bs, m, fs, hasked, hconclude, -⟩ := (gather_eq_ok_iff k).mp h
      rw [(conclude_frame hconclude).2 i hne, askEach_frame members hasked hbelow]
    | any id cs =>
      rw [Narrated.ask] at h
      obtain ⟨bs, m, fs, hasked, hconclude, -⟩ := (gather_eq_ok_iff k).mp h
      rw [(conclude_frame hconclude).2 i hne, askEach_frame members hasked hbelow]

theorem askEach_append_eq_ok_iff {cs ds : List (Criterion ε α)} {bs : List Bool}
    {es : List (Event ε α)} :
    Narrated.askEach p s k (cs ++ ds) j = (es, .ok bs j') ↔
      ∃ as m rest fs gs, Narrated.askEach p s k cs j = (fs, .ok as m) ∧
        Narrated.askEach p s k ds m = (gs, .ok rest j') ∧ bs = as ++ rest ∧ es = fs ++ gs := by
  induction cs generalizing j bs es with
  | nil =>
    constructor
    · exact fun h => ⟨[], j, bs, [], es, rfl, h, rfl, rfl⟩
    · rintro ⟨as, m, rest, fs, gs, hcs, hds, rfl, rfl⟩
      rw [Narrated.askEach] at hcs
      obtain ⟨rfl, rfl, rfl⟩ := Scribe.pure_eq_ok_iff.mp hcs
      exact hds
  | cons c cs ih =>
    rw [List.cons_append, askEach_cons_eq_ok_iff]
    constructor
    · rintro ⟨b, m, rest, fs, gs, hc, hrest, rfl, rfl⟩
      obtain ⟨as, n, rest, hs, is, hcs, hds, rfl, rfl⟩ := ih.mp hrest
      refine ⟨b :: as, n, rest, fs ++ hs, is, ?_, hds, rfl, (List.append_assoc fs hs is).symm⟩
      exact (askEach_cons_eq_ok_iff p s k).mpr ⟨b, m, as, fs, hs, hc, hcs, rfl, rfl⟩
    · rintro ⟨as, m, rest, fs, gs, hcs, hds, rfl, rfl⟩
      obtain ⟨b, n, bs, hs, is, hc, hrest, rfl, rfl⟩ := (askEach_cons_eq_ok_iff p s k).mp hcs
      refine ⟨b, n, bs ++ rest, hs, is ++ gs, hc, ?_, rfl, List.append_assoc hs is gs⟩
      exact ih.mpr ⟨bs, m, rest, is, gs, hrest, hds, rfl, rfl⟩

theorem askEach_singleton_eq_ok_iff {c : Criterion ε α} {bs : List Bool}
    {es : List (Event ε α)} : Narrated.askEach p s k [c] j = (es, .ok bs j') ↔
      ∃ b, Narrated.ask p s k c j = (es, .ok b j') ∧ bs = [b] := by
  rw [askEach_cons_eq_ok_iff]
  constructor
  · rintro ⟨b, m, rest, fs, gs, hc, hnil, rfl, rfl⟩
    rw [Narrated.askEach] at hnil
    obtain ⟨rfl, rfl, rfl⟩ := Scribe.pure_eq_ok_iff.mp hnil
    exact ⟨b, by rw [List.append_nil]; exact hc, rfl⟩
  · rintro ⟨b, hc, rfl⟩
    exact ⟨b, j', [], es, [], hc, rfl, rfl, (List.append_nil es).symm⟩

end Criterion

section Level
open Criterion
variable {c : Criterion ε α} {cs : List (Criterion ε α)} {j j' m m' : Judging ε α}

/-- Memories that are level for each of some trees. -/
def Even (cs : List (Criterion ε α)) (j j' : Judging ε α) : Prop :=
  ∀ c ∈ cs, Judging.Level c.ids c.timers j j'

theorem Judging.Level.onward (ds : List (Criterion ε α))
    (coherent : ∀ d ∈ c.nodes, ∀ e ∈ nodesEach ds, d.id = e.id → d = e)
    (h : Judging.Level c.ids c.timers j j') (hds : Even ds m m') (henv : m'.env = m.env)
    (frame : ∀ i ∈ c.ids, i ∉ idsEach ds →
      m.nodes.get i = j.nodes.get i ∧ m'.nodes.get i = j'.nodes.get i) :
    Judging.Level c.ids c.timers m m' where
  env := henv
  account i hi := by
    by_cases hid : i ∈ idsEach ds
    · obtain ⟨e, he, rfl⟩ := List.mem_map.mp hid
      obtain ⟨d, hd, hed⟩ := mem_nodesEach.mp he
      exact (hds d hd).account e.id (id_mem_ids hed)
    · obtain ⟨hm, hm'⟩ := frame i hi hid
      rw [hm, hm', h.account i hi]
  started i hi := by
    obtain ⟨seconds, clock, hatom⟩ := mem_timers.mp hi
    by_cases hid : i ∈ idsEach ds
    · -- the timer stands in one of the other trees as well
      obtain ⟨e, he, hsame⟩ := List.mem_map.mp hid
      obtain rfl := coherent _ hatom e he hsame.symm
      obtain ⟨d, hd, hed⟩ := mem_nodesEach.mp he
      exact (hds d hd).started i (mem_timers.mpr ⟨seconds, clock, hed⟩)
    · obtain ⟨hm, hm'⟩ := frame i (id_mem_ids hatom) hid
      rw [hm, hm', h.started i hi]

theorem Even.revised (h : Even cs j j') (henv : m.env = j.env) (henv' : m'.env = j'.env)
    (frame : ∀ i ∈ idsEach cs,
      m.nodes.get i = j.nodes.get i ∧ m'.nodes.get i = j'.nodes.get i) : Even cs m m' := by
  intro c hc
  refine (h c hc).onward [] (fun _ _ _ he => absurd he List.not_mem_nil)
    (fun _ hd => absurd hd List.not_mem_nil) ?_ fun i hi _ => frame i (mem_idsEach hc hi)
  rw [henv, henv', (h c hc).env]

end Level
end Geodescent
