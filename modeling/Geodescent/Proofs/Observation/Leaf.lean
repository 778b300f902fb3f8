import Geodescent.Cadence
import Geodescent.Observation

/-! Leaves of trees of observers: the moments at which they act, and what they remember. The cadence
of a leaf and the wrappers above it have to agree on an iteration, whereas at the stop the wrappers
have no say. -/
namespace Geodescent

namespace Cadence

/-- A cadence hits the iterations that it divides, unless it waits for the stop. -/
def Hits (c : Cadence) (k : Int) : Prop := c.atStop = false ∧ (c.every : Int) ∣ k

theorem hits_iff {c : Cadence} {k : Int} : c.Hits k ↔ c.acts k false = true :=
  (c.acts_running k).symm

instance (c : Cadence) (k : Int) : Decidable (c.Hits k) :=
  inferInstanceAs (Decidable (c.atStop = false ∧ (c.every : Int) ∣ k))

theorem passes_iff {c : Cadence} {k : Int} {stopped : Bool} :
    (stopped || c.acts k false) = true ↔ (stopped = false → c.Hits k) := by
  cases stopped with
  | true => simp
  | false => simp [hits_iff]

def lcm (c d : Cadence) : Cadence :=
  ⟨Nat.lcm c.every d.every, c.atStop || d.atStop, Nat.lcm_pos c.every_pos d.every_pos⟩

def everySecond : Cadence := ⟨2, false, Nat.two_pos⟩

def everyThird : Cadence := ⟨3, false, Nat.succ_pos 2⟩

theorem hits_lcm {c d : Cadence} {k : Int} : (c.lcm d).Hits k ↔ c.Hits k ∧ d.Hits k := by
  have hdvd : ((Nat.lcm c.every d.every : Nat) : Int) ∣ k ↔
      (c.every : Int) ∣ k ∧ (d.every : Int) ∣ k := by
    simp only [Int.ofNat_dvd_left, Nat.lcm_dvd_iff]
  have hstop : (c.lcm d).atStop = false ↔ c.atStop = false ∧ d.atStop = false := by
    simp [lcm]
  constructor
  · rintro ⟨hatStop, hk⟩
    obtain ⟨hc, hd⟩ := hdvd.mp hk
    exact ⟨⟨(hstop.mp hatStop).1, hc⟩, ⟨(hstop.mp hatStop).2, hd⟩⟩
  · rintro ⟨hc, hd⟩
    exact ⟨hstop.mpr ⟨hc.1, hd.1⟩, hdvd.mpr ⟨hc.2, hd.2⟩⟩

end Cadence

/-- A leaf with the cadences of the wrappers above it, the nearest one first. -/
structure Leaf (κ : Type) where
  id : Nat
  kind : κ
  cadence : Cadence
  wrappers : List Cadence

namespace Leaf
variable {κ : Type} {ℓ : Leaf κ} {k : Int} {stopped : Bool}

def under (c : Cadence) (ℓ : Leaf κ) : Leaf κ := { ℓ with wrappers := ℓ.wrappers ++ [c] }

/-- A leaf acts in the iterations that its cadence and all wrappers hit, and at the stop if its
cadence waits for that. -/
def Acts (ℓ : Leaf κ) (k : Int) (stopped : Bool) : Prop :=
  if stopped then ℓ.cadence.atStop = true else ∀ c ∈ ℓ.cadence :: ℓ.wrappers, c.Hits k

instance (ℓ : Leaf κ) (k : Int) (stopped : Bool) : Decidable (ℓ.Acts k stopped) :=
  inferInstanceAs (Decidable (if stopped = true then _ else _))

theorem acts_stopped : ℓ.Acts k true ↔ ℓ.cadence.atStop = true := by
  simp [Acts]

theorem acts_running :
    ℓ.Acts k false ↔ ℓ.cadence.Hits k ∧ ∀ c ∈ ℓ.wrappers, c.Hits k := by
  simp [Acts]

theorem acts_under {c : Cadence} :
    (ℓ.under c).Acts k stopped ↔ ℓ.Acts k stopped ∧ (stopped = false → c.Hits k) := by
  cases stopped with
  | true => simp [acts_stopped, under]
  | false =>
    simp only [acts_running, under, List.forall_mem_append, List.forall_mem_singleton,
      true_implies, and_assoc]

theorem acts_of_wrapper_missed {c : Cadence} (hstopped : stopped = false) (h : ¬ c.Hits k) :
    ¬ (ℓ.under c).Acts k stopped := fun hacts => h ((acts_under.mp hacts).2 hstopped)

theorem acts_of_no_wrappers {id : Nat} {kind : κ} {c : Cadence} :
    (Leaf.mk id kind c []).Acts k stopped ↔ c.acts k stopped = true := by
  cases stopped with
  | true => rw [acts_stopped, Cadence.acts_stopped]
  | false => simp [acts_running, Cadence.hits_iff]

section Sites
variable {P : Leaf κ → Prop} [DecidablePred P] {ℓs : List (Leaf κ)} {c : Cadence}

def sites (P : Leaf κ → Prop) [DecidablePred P] (ℓs : List (Leaf κ)) : List (Nat × κ) :=
  (ℓs.filter P).map fun ℓ => (ℓ.id, ℓ.kind)

theorem sites_append (ℓs ℓs' : List (Leaf κ)) :
    sites P (ℓs ++ ℓs') = sites P ℓs ++ sites P ℓs' := by
  simp [sites]

theorem exists_of_mem_sites {site : Nat × κ} (h : site ∈ sites P ℓs) :
    ∃ ℓ ∈ ℓs, (ℓ.id, ℓ.kind) = site := by
  obtain ⟨ℓ, hℓ, hsite⟩ := List.mem_map.mp h
  exact ⟨ℓ, (List.mem_filter.mp hℓ).1, hsite⟩

theorem sites_under (h : ∀ ℓ, P (ℓ.under c) ↔ P ℓ) : sites P (ℓs.map (under c)) = sites P ℓs := by
  unfold sites
  rw [List.filter_map, List.map_map]
  simp only [Function.comp_def, h]
  rfl

theorem sites_under_eq_nil (h : ∀ ℓ : Leaf κ, ¬ P (ℓ.under c)) : sites P (ℓs.map (under c)) = [] := by
  have hnone : (ℓs.map (under c)).filter P = [] := by
    rw [List.filter_eq_nil_iff]
    intro ℓ hℓ
    obtain ⟨ℓ', -, rfl⟩ := List.mem_map.mp hℓ
    simpa using h ℓ'
  rw [sites, hnone, List.map_nil]

theorem filter_id_eq (distinct : (ℓs.map id).Nodup) (h : ℓ ∈ ℓs) :
    ℓs.filter (fun m => m.id = ℓ.id) = [ℓ] := by
  induction ℓs with
  | nil => exact absurd h List.not_mem_nil
  | cons m rest ih =>
    rw [List.map_cons, List.nodup_cons] at distinct
    obtain ⟨hm, hrest⟩ := distinct
    rcases List.mem_cons.mp h with rfl | hℓ
    · have hnone : rest.filter (fun m => m.id = ℓ.id) = [] := by
        rw [List.filter_eq_nil_iff]
        intro n hn hid
        have hsame : n.id = ℓ.id := by simpa using hid
        exact hm (hsame ▸ List.mem_map_of_mem hn)
      rw [List.filter_cons_of_pos (by simp), hnone]
    · have hne : m.id ≠ ℓ.id := fun hid => hm (hid ▸ List.mem_map_of_mem hℓ)
      rw [List.filter_cons_of_neg (by simpa using hne)]
      exact ih hrest hℓ

theorem sites_filter_id (distinct : (ℓs.map id).Nodup) (h : ℓ ∈ ℓs) :
    (sites P ℓs).filter (fun site => site.1 = ℓ.id) =
      if P ℓ then [(ℓ.id, ℓ.kind)] else [] := by
  have hself : ℓs.filter (fun m => m.id = ℓ.id) = [ℓ] := filter_id_eq distinct h
  have hswap : (sites P ℓs).filter (fun site => site.1 = ℓ.id) =
      ((ℓs.filter fun m => m.id = ℓ.id).filter P).map fun m => (m.id, m.kind) := by
    rw [sites, List.filter_map, List.filter_filter, List.filter_filter]
    simp only [Function.comp_def, Bool.and_comm]
  rw [hswap, hself]
  by_cases hP : P ℓ
  · simp [hP]
  · simp [hP]

end Sites

end Leaf

/-- Asking for the cost leaves the surroundings as they were. -/
def Problem.Undisturbing {ε α : Type} (p : Problem ε α) : Prop :=
  ∀ x env c env', p.costAt x env = .ok c env' → env' = env

namespace Observing
variable {ε α : Type} {x : Point α} {o o' o'' : Observing ε α} {ids ids' : List Nat}

theorem cost_ok {t : Moment ε α} {c : α} (h : cost t o = .ok c o') :
    o'.memory = o.memory ∧ o'.console = o.console ∧
      (t.problem.Undisturbing → o'.env = o.env) := by
  obtain ⟨env, henv, rfl⟩ := (Part.run_eq_ok_iff _).mp h
  exact ⟨rfl, rfl, fun hp => hp _ _ _ _ henv⟩

/-- The leaves `ids` have come to remember the point `x`, and nothing else has changed. -/
structure Refreshed (x : Point α) (ids : List Nat) (o o' : Observing ε α) : Prop where
  env : o'.env = o.env
  console : o'.console = o.console
  memory : ∀ i, o'.memory.get i =
    if i ∈ ids then { o.memory.get i with previous := x } else o.memory.get i

theorem Refreshed.refl (x : Point α) (o : Observing ε α) : Refreshed x [] o o :=
  ⟨rfl, rfl, fun _ => (if_neg List.not_mem_nil).symm⟩

theorem Refreshed.trans (h : Refreshed x ids o o') (g : Refreshed x ids' o' o'') :
    Refreshed x (ids ++ ids') o o'' := by
  refine ⟨g.env.trans h.env, g.console.trans h.console, fun i => ?_⟩
  rw [g.memory, h.memory]
  by_cases hi : i ∈ ids
  · simp [hi]
  · simp [hi]

theorem refreshed_remember (id : Nat) (x : Point α) (o : Observing ε α) :
    Refreshed x [id] o (remember id x o) := by
  refine ⟨rfl, rfl, fun i => ?_⟩
  rw [memory_remember]
  simp [eq_comm]

theorem Refreshed.spares (h : Refreshed x ids o o') {i : Nat} (hi : i ∉ ids) :
    o'.memory.get i = o.memory.get i := by
  rw [h.memory, if_neg hi]

theorem Refreshed.recorded (h : Refreshed x ids o o') (i : Nat) :
    (o'.memory.get i).recorded = (o.memory.get i).recorded := by
  rw [h.memory]
  split
  · rfl
  · rfl

theorem Refreshed.previous (h : Refreshed x ids o o') {i : Nat} (hi : i ∈ ids) :
    (o'.memory.get i).previous = x := by
  rw [h.memory, if_pos hi]

theorem Refreshed.unless_stopped {t : Moment ε α} {m : Observe ε α Unit}
    (hm : ∃ u, m o = .ok () u ∧ Refreshed t.state.x ids o u)
    (h : (if !t.stopped then m else pure () : Observe ε α Unit) o = .ok () o') :
    Refreshed t.state.x (if t.stopped then [] else ids) o o' := by
  cases hstopped : t.stopped with
  | true =>
    rw [hstopped] at h
    cases h
    exact .refl _ o
  | false =>
    rw [hstopped] at h
    obtain ⟨u, hu, refreshed⟩ := hm
    have hsame : m o = .ok () o' := h
    rw [hu] at hsame
    cases hsame
    exact refreshed

/-- Nothing outside of the numbers `ids` has changed, and of the points that are remembered those of
the leaves `watchers`, unless the run has stopped. -/
structure Kept (x : Point α) (stopped : Bool) (watchers ids : List Nat) (o o' : Observing ε α) :
    Prop where
  spares : ∀ i ∉ ids, o'.memory.get i = o.memory.get i
  previous : ∀ i, (o'.memory.get i).previous =
    if stopped = false ∧ i ∈ watchers then x else (o.memory.get i).previous

namespace Kept
variable {stopped : Bool} {ws ws' : List Nat}

theorem refl (x : Point α) (stopped : Bool) (o : Observing ε α) : Kept x stopped [] [] o o where
  spares _ _ := rfl
  previous i := by simp

theorem append (h : Kept x stopped ws ids o o') (g : Kept x stopped ws' ids' o' o'') :
    Kept x stopped (ws ++ ws') (ids ++ ids') o o'' where
  spares i hi := by
    rw [List.mem_append, not_or] at hi
    rw [g.spares i hi.2, h.spares i hi.1]
  previous i := by
    rw [g.previous, h.previous]
    by_cases hstopped : stopped = false
    · by_cases hi : i ∈ ws'
      · simp [hstopped, hi]
      · simp [hstopped, hi]
    · simp [hstopped]

theorem of_same (h : Kept x stopped ws ids o' o'') (hspares : ∀ i ∉ ids,
    o'.memory.get i = o.memory.get i) (hprevious : ∀ i, (o'.memory.get i).previous =
      (o.memory.get i).previous) : Kept x stopped ws ids o o'' where
  spares i hi := (h.spares i hi).trans (hspares i hi)
  previous i := by rw [h.previous, hprevious]

theorem of_refreshed (hws : ws ⊆ ids) (h : Refreshed x (if stopped then [] else ws) o o') :
    Kept x stopped ws ids o o' where
  spares i hi := by
    refine h.spares fun hmem => ?_
    split at hmem
    · exact absurd hmem List.not_mem_nil
    · exact hi (hws hmem)
  previous i := by
    rw [h.memory]
    cases stopped with
    | true => simp
    | false => by_cases hi : i ∈ ws <;> simp [hi]

end Kept

end Observing
end Geodescent
