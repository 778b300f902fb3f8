import Geodescent.Proofs.Criterion.Account
import Geodescent.Proofs.Criterion.Steady
import Geodescent.Proofs.Criterion.Streak

/-! A tree may be used again. Whatever earlier calls have left in the memory of its nodes, from a call
in iteration 0 on it does what a tree does that has just been built: `reuse_law`. -/
namespace Geodescent

/-- The same surroundings, the same accounts of the nodes `ids` and the same start of `timers`. -/
structure Judging.Level {ε α : Type} (ids timers : List Nat) (j j' : Judging ε α) : Prop where
  env : j'.env = j.env
  account : ∀ i ∈ ids, (j'.nodes.get i).account = (j.nodes.get i).account
  started : ∀ i ∈ timers, (j'.nodes.get i).started = (j.nodes.get i).started

namespace Judging.Level
open Criterion
variable {ε α : Type} {ids timers : List Nat} {j j' : Judging ε α} {k : Int}

theorem revise (h : Level ids timers j j') (id : Nat) {f : NodeMemory α → NodeMemory α}
    (account : ∀ m m', m'.account = m.account → (f m').account = (f m).account)
    (started : ∀ m m', m'.started = m.started → (f m').started = (f m).started) :
    Level ids timers (j.revise id f) (j'.revise id f) where
  env := h.env
  account i hi := by
    rw [nodes_revise, nodes_revise]
    by_cases hid : id = i
    · rw [if_pos hid, if_pos hid]
      exact account _ _ (h.account id (hid ▸ hi))
    · rw [if_neg hid, if_neg hid, h.account i hi]
  started i hi := by
    rw [nodes_revise, nodes_revise]
    by_cases hid : id = i
    · rw [if_pos hid, if_pos hid]
      exact started _ _ (h.started id (hid ▸ hi))
    · rw [if_neg hid, if_neg hid, h.started i hi]

theorem clear (h : Level ids timers j j') (id : Nat) :
    Level ids timers (j.clear id) (j'.clear id) :=
  h.revise id (fun _ _ _ => rfl) fun _ _ hm => hm

theorem restart (h : Level ids timers j j') (check : Check ε α) (id : Nat) :
    Level ids timers (check.restart id j) (check.restart id j') := by
  cases check with
  | elapsed seconds clock =>
    change Level ids timers (j.revise id fun m => { m with started := some (clock j.env) })
      (j'.revise id fun m => { m with started := some (clock j'.env) })
    rw [h.env]
    exact h.revise id (fun _ _ hm => hm) fun _ _ _ => rfl
  | _ => exact h

theorem hold (h : Level ids timers j j') (id : Nat) (reason : String) :
    Level ids timers (j.hold id k reason) (j'.hold id k reason) := by
  refine h.revise id (fun m m' hm => ?_) fun _ _ hm => hm
  have hsince : m'.since = m.since := congrArg Prod.snd hm
  change (reason, if m'.since < 0 then k else m'.since) = (reason, if m.since < 0 then k else m.since)
  rw [hsince]

theorem holdUntold (h : Level ids timers j j') (id : Nat) :
    Level ids timers (j.holdUntold id k) (j'.holdUntold id k) := by
  refine h.revise id (fun m m' hm => ?_) fun _ _ hm => hm
  obtain ⟨hreason, hsince⟩ := Prod.mk.inj hm
  change (m'.reason, if m'.since < 0 then k else m'.since) =
    (m.reason, if m.since < 0 then k else m.since)
  rw [hreason, hsince]

theorem lapse (h : Level ids timers j j') (id : Nat) :
    Level ids timers (j.lapse id) (j'.lapse id) := by
  refine h.revise id (fun m m' hm => ?_) fun _ _ hm => hm
  have hreason : m'.reason = m.reason := congrArg Prod.fst hm
  change (m'.reason, -1) = (m.reason, -1)
  rw [hreason]

theorem conclude (h : Level ids timers j j') (id : Nat) (finding : Check.Finding α) :
    Parallel (Level ids timers) (Level ids timers) (conclude id k finding j)
      (conclude id k finding j') := by
  match finding with
  | some (.ok reason) => exact .ok true (h.hold id reason)
  | some (.error fault) => exact .error fault (h.holdUntold id)
  | none => exact .ok false (h.lapse id)

theorem accounts (h : Level ids timers j j') {cs : List (Criterion ε α)}
    (hcs : ∀ c ∈ cs, c.id ∈ ids) : accounts j'.nodes cs = accounts j.nodes cs :=
  List.map_congr_left fun c hc => h.account c.id (hcs c hc)

theorem renew (h : Level ids timers j j') (c : Criterion ε α) :
    Level ids timers (renew c j) (renew c j') :=
  renew_together c (fun d _ _ _ h => h.clear d.id) (fun id check _ _ _ h => h.restart check id)
    j j' h

end Judging.Level

namespace Criterion
variable {ε α : Type}

def timer? : Nat × Check ε α → Option Nat
  | (id, .elapsed _ _) => some id
  | _ => none

def timers (c : Criterion ε α) : List Nat := c.atoms.filterMap timer?

theorem mem_timers {c : Criterion ε α} {i : Nat} :
    i ∈ c.timers ↔ ∃ seconds clock, .atom i (.elapsed seconds clock) ∈ c.nodes := by
  constructor
  · intro h
    obtain ⟨⟨id, check⟩, hx, hi⟩ := List.mem_filterMap.mp h
    cases check with
    | elapsed seconds clock =>
      cases hi
      exact ⟨seconds, clock, mem_atoms.mp hx⟩
    | _ => cases hi
  · rintro ⟨seconds, clock, h⟩
    exact List.mem_filterMap.mpr ⟨_, mem_atoms.mpr h, rfl⟩

theorem level_renew (c : Criterion ε α) {j j' : Judging ε α} (henv : j'.env = j.env) :
    Judging.Level c.ids c.timers (renew c j) (renew c j') where
  env := by rw [env_renew, env_renew, henv]
  account i hi := by
    obtain ⟨d, hd, rfl⟩ := List.mem_map.mp hi
    rw [account_renew_of_mem hd, account_renew_of_mem hd]
  started i hi := by
    obtain ⟨seconds, clock, hd⟩ := mem_timers.mp hi
    have own : ∀ j j' : Judging ε α, j'.env = j.env → Judging.Level [] [i]
        (renew (.atom i (.elapsed seconds clock)) j)
        (renew (.atom i (.elapsed seconds clock)) j') := by
      intro j j' henv
      refine ⟨by rw [env_renew, env_renew, henv], nofun, fun i' hi' => ?_⟩
      rw [List.mem_singleton.mp hi']
      change (((j'.clear i).revise i fun m => { m with started := some (clock j'.env) }).nodes.get
        i).started = (((j.clear i).revise i fun m => { m with started := some (clock j.env) }).nodes.get
        i).started
      rw [nodes_revise_self, nodes_revise_self, henv]
    have hlevel := renew_reaches hd own (fun e _ _ _ h => h.clear e.id)
      (fun id check _ _ _ h => h.restart check id) j j' henv
    exact hlevel.started i (List.mem_singleton_self i)

section Lockstep
variable [Scalar α] {p : Problem ε α} {s : State α} {k : Int} {ids timers : List Nat}

variable (ids) in
theorem twin_test {check : Check ε α} {id : Nat}
    (hid : ∀ i ∈ [(id, check)].filterMap timer?, i ∈ timers) :
    Twin (Judging.Level ids timers) (Judging.Level ids timers) (Judging.Level ids timers)
      (check.test id p s k) (check.test id p s k) := by
  cases check with
  | cap n => exact .pure _
  | gradientNorm threshold => exact .settled _ fun _ _ h => h
  | change threshold => exact .settled _ fun _ _ h => h
  | elapsed seconds clock =>
    refine .reading fun j j' h => ?_
    have hstarted := h.started id (hid id (List.mem_singleton_self id))
    dsimp only
    rw [hstarted, h.env]
    cases (j.nodes.get id).started with
    | some start => exact .pure _
    | none =>
      refine .bind (S := Judging.Level ids timers) ?_ fun _ => .pure _
      intro m m' hm
      exact .ok () (h.revise id (fun _ _ hm => hm) fun _ _ _ => rfl)
  | flag shown probe =>
    refine .reading fun j j' h => ?_
    rw [h.env]
    exact .bind (.settled _ fun _ _ h => h) fun raised => .pure _
  | custom kind shown test =>
    refine .bind (.shared _ (fun _ _ h => h.env.symm) fun j j' env h => ?_) fun reason => .pure _
    exact ⟨rfl, h.account, h.started⟩
  | value d => exact .throw _ fun _ _ h => h

theorem lockstep_level (c : Criterion ε α) :
    Lockstep p s k (Judging.Level c.ids c.timers) Eq c where
  renewed d _ j j' h := by
    unfold renewed
    split
    · exact h.renew d
    · exact h
  tested x hx := by
    have htimers : ∀ i ∈ [x].filterMap timer?, i ∈ c.timers := by
      intro i hi
      obtain ⟨y, hy, hyi⟩ := List.mem_filterMap.mp hi
      rw [List.mem_singleton.mp hy] at hyi
      exact List.mem_filterMap.mpr ⟨x, hx, hyi⟩
    have htest := twin_test (p := p) (s := s) (k := k) c.ids htimers
    refine .entering htest fun j j' h => ?_
    rw [(htest j j' h).given_eq]
  concluded d hd find hfind j j' h := by
    have hchildren : accounts j'.nodes d.children = accounts j.nodes d.children :=
      h.accounts fun e he => id_mem_ids (mem_nodes_of_child hd he)
    have hsame : find j'.nodes = find j.nodes := by
      cases d with
      | atom id check =>
        obtain ⟨finding, rfl⟩ := hfind
        rfl
      | all id members =>
        obtain ⟨answers, rfl⟩ := hfind
        rw [children_all] at hchildren
        dsimp only
        rw [allFinding, allFinding, reasonOfAll_eq, reasonOfAll_eq, hchildren]
      | any id members =>
        obtain ⟨answers, rfl⟩ := hfind
        rw [children_any] at hchildren
        dsimp only
        rw [anyFinding, anyFinding, reasonOfAny_eq, reasonOfAny_eq, hchildren]
    rw [hsame]
    exact h.conclude d.id (find j.nodes)
  answered _ _ _ := rfl

theorem level_ask {c : Criterion ε α} {j j' : Judging ε α} (henv : j'.env = j.env)
    (h : k ≠ 0 → Judging.Level c.ids c.timers j j') :
    (Narrated.ask p s k c j').1 = (Narrated.ask p s k c j).1 ∧
      Parallel (Judging.Level c.ids c.timers) (Judging.Level c.ids c.timers)
        (Narrated.ask p s k c j).2 (Narrated.ask p s k c j').2 := by
  have opening : ∀ j j' : Judging ε α,
      (j'.env = j.env ∧ (k ≠ 0 → Judging.Level c.ids c.timers j j')) →
        Judging.Level c.ids c.timers (renewed k c j) (renewed k c j') := by
    rintro j j' ⟨henv, hj⟩
    unfold renewed
    split
    · -- nothing is known of the memories, but the tree is renewed
      exact level_renew c henv
    · exact hj ‹_›
  obtain ⟨hevents, hend⟩ := (lockstep_level (p := p) (s := s) c).ask opening j j' ⟨henv, h⟩
  rw [List.forall₂_eq_eq_eq] at hevents
  exact ⟨hevents.symm, hend⟩

end Lockstep
end Criterion

namespace Series
variable {ε α : Type} [Scalar α]

def fresh (S : Series ε α) : Series ε α := { S with start := .empty }

variable {S S' : Series ε α} {k : Nat}

theorem memory_succ (S : Series ε α) (k : Nat) :
    S.memory (k + 1) = (left (S.callWith k (S.memory k)).2).nodes := by
  rw [memory]
  cases (S.callWith k (S.memory k)).2 with
  | ok b j => rfl
  | error e j => rfl

theorem outcome_callWith (S : Series ε α) (k : Nat) (nodes : Store (NodeMemory α)) :
    (S.callWith k nodes).2 =
      S.criterion.ask S.problem (S.state k) (Int.ofNat k) ⟨S.env k, nodes⟩ := by
  rw [← Criterion.outcome_ask]
  rfl

theorem level_call (nodes nodes' : Store (NodeMemory α))
    (h : k ≠ 0 → Judging.Level S.criterion.ids S.criterion.timers ⟨S.env k, nodes⟩
      ⟨S.env k, nodes'⟩) :
    (S.callWith k nodes').1 = (S.callWith k nodes).1 ∧
      Parallel (Judging.Level S.criterion.ids S.criterion.timers)
        (Judging.Level S.criterion.ids S.criterion.timers) (S.callWith k nodes).2
        (S.callWith k nodes').2 := by
  exact Criterion.level_ask rfl fun hk => h fun h0 => hk (by rw [h0]; rfl)

theorem level_step (h : k ≠ 0 → Judging.Level S.criterion.ids S.criterion.timers
    ⟨S.env k, S.memory k⟩ ⟨S.env k, S.fresh.memory k⟩) (env : ε) :
    Judging.Level S.criterion.ids S.criterion.timers ⟨env, S.memory (k + 1)⟩
      ⟨env, S.fresh.memory (k + 1)⟩ := by
  have hend := (level_call (S.memory k) (S.fresh.memory k) h).2.left
  rw [memory_succ, memory_succ]
  exact ⟨rfl, hend.account, hend.started⟩

theorem level_memory (S : Series ε α) (k : Nat) (env : ε) :
    Judging.Level S.criterion.ids S.criterion.timers ⟨env, S.memory (k + 1)⟩
      ⟨env, S.fresh.memory (k + 1)⟩ := by
  induction k generalizing env with
  | zero => exact level_step (fun h => absurd rfl h) env
  | succ k ih => exact level_step (fun _ => ih (S.env (k + 1))) env

theorem timed_step (coherent : S.criterion.Coherent) (steady : S.criterion.Steady)
    (h : k ≠ 0 → S.criterion.Timed (S.env 0) (S.env k) ⟨S.env k, S.memory k⟩) :
    (∀ e ∈ S.events k, e.Found S.problem (S.state k) (Int.ofNat k) (S.env 0) (S.env k)) ∧
      ∀ env, S.criterion.Timed (S.env 0) env ⟨env, S.memory (k + 1)⟩ := by
  have hk : Int.ofNat k = 0 → S.env 0 = S.env k := by
    intro hk
    rw [Int.ofNat_eq_zero.mp hk]
  have hj : Int.ofNat k ≠ 0 → S.criterion.Timed (S.env 0) (S.env k) ⟨S.env k, S.memory k⟩ :=
    fun hne => h fun hk => hne (by rw [hk]; rfl)
  obtain ⟨hfound, hend⟩ := Criterion.timed_ask (p := S.problem) (s := S.state k) coherent steady
    hk rfl hj
  refine ⟨hfound, fun env => ⟨rfl, ?_⟩⟩
  rw [memory_succ]
  exact hend.started

theorem timed_call (coherent : S.criterion.Coherent) (steady : S.criterion.Steady) (k : Nat) :
    (∀ e ∈ S.events k, e.Found S.problem (S.state k) (Int.ofNat k) (S.env 0) (S.env k)) ∧
      ∀ env, S.criterion.Timed (S.env 0) env ⟨env, S.memory (k + 1)⟩ := by
  induction k with
  | zero => exact timed_step coherent steady fun h => absurd rfl h
  | succ k ih => exact timed_step coherent steady fun _ => ih.2 (S.env (k + 1))

/-- Criteria are reusable: what happens in the calls of a run, what they answer and what every node
says of itself afterwards do not depend on what was left over, and timers count from iteration 0. -/
theorem reuse_law (S : Series ε α) (k : Nat) :
    (∀ nodes, (S.callWith k nodes).2 =
      S.criterion.ask S.problem (S.state k) (Int.ofNat k) ⟨S.env k, nodes⟩) ∧
    (S.events k = S.fresh.events k ∧
      given (S.criterion.ask S.problem (S.state k) (Int.ofNat k) ⟨S.env k, S.memory k⟩) =
        given (S.criterion.ask S.problem (S.state k) (Int.ofNat k) ⟨S.env k, S.fresh.memory k⟩) ∧
      ∀ d ∈ S.criterion.nodes,
        ((S.memory (k + 1)).get d.id).reason = ((S.fresh.memory (k + 1)).get d.id).reason ∧
        ((S.memory (k + 1)).get d.id).since = ((S.fresh.memory (k + 1)).get d.id).since) ∧
    (S.criterion.Coherent → S.criterion.Steady → ∀ id seconds clock finding,
      .checked id (.elapsed seconds clock) finding ∈ S.events k →
        finding = .ok (Check.overtime seconds (clock (S.env k) - clock (S.env 0)))) := by
  have hbefore : k ≠ 0 → Judging.Level S.criterion.ids S.criterion.timers ⟨S.env k, S.memory k⟩
      ⟨S.env k, S.fresh.memory k⟩ := by
    intro hk
    obtain ⟨i, rfl⟩ := Nat.exists_eq_succ_of_ne_zero hk
    exact level_memory S i _
  obtain ⟨hevents, hend⟩ := level_call (S.memory k) (S.fresh.memory k) hbefore
  refine ⟨outcome_callWith S k, ⟨hevents.symm, ?_, fun d hd => ?_⟩,
    fun coherent steady id seconds clock finding h => ?_⟩
  · have hanswers := hend.given_eq
    rw [outcome_callWith, outcome_callWith] at hanswers
    exact hanswers.symm
  · have haccount := (level_memory S k (S.env k)).account d.id (Criterion.id_mem_ids hd)
    obtain ⟨hreason, hsince⟩ := Prod.mk.inj haccount
    exact ⟨hreason.symm, hsince.symm⟩
  · exact (timed_call coherent steady k).1 _ h

def stopwatch : Series Nat Float where
  problem := ⟨Manifold.euclideanOf (.whole 1), fun _ _ => pure 0, .costOnly⟩
  criterion := .any 0 [.atom 1 (.elapsed 5 Float.ofNat), .atom 2 (.cap 9)]
  env k := 100 + k
  state _ := .start .none
  start := (Store.empty.set 1 ⟨"An old text.", 3, some 7⟩).set 0 ⟨"An old text.", 3, none⟩

theorem steady_stopwatch : stopwatch.criterion.Steady := by
  intro i check hi
  simp only [stopwatch, Criterion.nodes, Criterion.nodesEach, List.append_nil, List.cons_append,
    List.nil_append, List.mem_cons, List.not_mem_nil, or_false, Criterion.atom.injEq] at hi
  rcases hi with ⟨-, rfl⟩ | ⟨-, rfl⟩ | hi
  · trivial
  · trivial
  · cases hi

theorem reuse_law_stopwatch : stopwatch.events 2 = stopwatch.fresh.events 2 ∧
    ∀ finding, .checked 1 (.elapsed 5 Float.ofNat) finding ∈ stopwatch.events 2 →
      finding = .ok (Check.overtime 5 (Float.ofNat 102 - Float.ofNat 100)) := by
  have distinct : stopwatch.criterion.Distinct := by decide
  obtain ⟨-, ⟨hevents, -⟩, htimers⟩ := reuse_law stopwatch 2
  exact ⟨hevents, htimers distinct.coherent steady_stopwatch 1 5 Float.ofNat⟩

end Series
end Geodescent
