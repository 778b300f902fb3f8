import Geodescent.Proofs.Criterion.Account
import Geodescent.Proofs.Criterion.Call
import Geodescent.Proofs.Criterion.Steady

/-! One call of a tree in which a node may stand in several places. A node that is asked again in the
same call comes to the same conclusion, so that at the end of the call every node says of itself what
a node in its place alone would say: `closed_ask`. A call in which every check comes to something
returns: `Hearing.ask_returns`. -/
namespace Geodescent.Criterion
variable {ε α : Type}

def settle (k : Int) (reason : Option String) (a : String × Int) : String × Int :=
  match reason with
  | some reason => (reason, if a.2 < 0 then k else a.2)
  | none => (a.1, -1)

theorem settle_settle {k : Int} (hk : 0 ≤ k) (reason : Option String) (a : String × Int) :
    settle k reason (settle k reason a) = settle k reason a := by
  cases reason with
  | none => rfl
  | some reason =>
    have hsince : ¬ (if a.2 < 0 then k else a.2) < 0 := by split <;> omega
    exact congrArg (reason, ·) (if_neg hsince)

section Closing
variable (k : Int) (t : Nat → Option String) (opens : Nat → String × Int)

mutual
def cause : Criterion ε α → Option String
  | .atom id _ => t id
  | .all id members =>
    if (all id members).verdict t then some (latestReason (closingEach members)) else none
  | .any id members =>
    if (any id members).verdict t then
      some (heldReasons (closingEach members) (members.map (verdict t)))
    else none

def closingEach : List (Criterion ε α) → List (String × Int)
  | [] => []
  | c :: cs => settle k (cause c) (opens c.id) :: closingEach cs
end

/-- What a node says of itself at the end of a call, if it said what is in `opens` before. -/
def closing (c : Criterion ε α) : String × Int := settle k (cause k t opens c) (opens c.id)

theorem closingEach_eq_map (cs : List (Criterion ε α)) :
    closingEach k t opens cs = cs.map (closing k t opens) := by
  induction cs with
  | nil => rfl
  | cons c cs ih => rw [closingEach, ih, List.map_cons, closing]

theorem isSome_cause (c : Criterion ε α) : (cause k t opens c).isSome = c.verdict t := by
  cases c with
  | atom id check => rfl
  | all id members =>
    rw [cause]
    split
    · exact Eq.symm ‹_›
    · exact (Bool.eq_false_iff.mpr ‹_›).symm
  | any id members =>
    rw [cause]
    split
    · exact Eq.symm ‹_›
    · exact (Bool.eq_false_iff.mpr ‹_›).symm

end Closing

section Nodes
variable {k : Int} {t : Nat → Option String} {opens : Nat → String × Int} {c d : Criterion ε α}
  {j j' m : Judging ε α} {ds es : List (Criterion ε α)}

theorem conclude_told (id : Nat) (reason : Option String) (j : Judging ε α) :
    ∃ j', conclude id k (reason.map .ok) j = .ok reason.isSome j' ∧
      (j'.nodes.get id).account = settle k reason (j.nodes.get id).account ∧
      ∀ i, i ≠ id → (j'.nodes.get i).account = (j.nodes.get i).account := by
  cases reason with
  | none =>
    refine ⟨j.lapse id, rfl, ?_, fun i hi => ?_⟩
    · rw [Judging.lapse, nodes_revise_self]
      rfl
    · rw [Judging.lapse, nodes_revise_of_ne hi]
  | some reason =>
    refine ⟨j.hold id k reason, rfl, ?_, fun i hi => ?_⟩
    · rw [Judging.hold, nodes_revise_self]
      rfl
    · rw [Judging.hold, nodes_revise_of_ne hi]

/-- In the middle of a call every node says what it said before the call or what it says at the end. -/
def Poised (k : Int) (t : Nat → Option String) (opens : Nat → String × Int) (c : Criterion ε α)
    (j : Judging ε α) : Prop :=
  ∀ d ∈ c.nodes, (j.nodes.get d.id).account = opens d.id ∨
    (j.nodes.get d.id).account = closing k t opens d

theorem Poised.renewed (hopens : k = 0 → ∀ i, opens i = ("", -1)) (poised : Poised k t opens c j) :
    Poised k t opens c (renewed k d j) := by
  intro e he
  by_cases hid : e.id ∈ d.ids
  · obtain ⟨f, hf, hsame⟩ := List.mem_map.mp hid
    unfold Criterion.renewed
    split
    · rw [← hsame, account_renew_of_mem hf, hopens ‹_›]
      exact .inl rfl
    · exact poised e he
  · rw [nodes_renewed_of_not_mem hid]
    exact poised e he

theorem poised_renewed (hopens : k = 0 → ∀ i, opens i = ("", -1))
    (hj : k ≠ 0 → ∀ d ∈ c.nodes, (j.nodes.get d.id).account = opens d.id) :
    Poised k t opens c (renewed k c j) := by
  intro d hd
  unfold Criterion.renewed
  split
  · rw [account_renew_of_mem hd, hopens ‹_›]
    exact .inl rfl
  · exact .inl (hj ‹_› d hd)

/-- The nodes `ds` have come to say what they say at the end of the call, the others what they said. -/
structure Closed (k : Int) (t : Nat → Option String) (opens : Nat → String × Int)
    (ds : List (Criterion ε α)) (j j' : Judging ε α) : Prop where
  frame : ∀ i, i ∉ ds.map id → (j'.nodes.get i).account = (j.nodes.get i).account
  closed : ∀ d ∈ ds, (j'.nodes.get d.id).account = closing k t opens d

theorem Closed.append (coherent : c.Coherent) (hds : ds ⊆ c.nodes) (hes : es ⊆ c.nodes)
    (h : Closed k t opens ds j m) (g : Closed k t opens es m j') :
    Closed k t opens (ds ++ es) j j' where
  frame i hi := by
    rw [List.map_append, List.mem_append, not_or] at hi
    rw [g.frame i hi.2, h.frame i hi.1]
  closed d hd := by
    rcases List.mem_append.mp hd with hd | hd
    · by_cases hid : d.id ∈ es.map id
      · -- the node stands in the second group as well, and has been asked there again
        obtain ⟨e, he, hsame⟩ := List.mem_map.mp hid
        obtain rfl := coherent e (hes he) d (hds hd) hsame
        exact g.closed e he
      · rw [g.frame d.id hid, h.closed d hd]
    · exact g.closed d hd

theorem Closed.poised (coherent : c.Coherent) (hds : ds ⊆ c.nodes)
    (h : Closed k t opens ds j j') (poised : Poised k t opens c j) : Poised k t opens c j' := by
  intro d hd
  by_cases hid : d.id ∈ ds.map id
  · obtain ⟨e, he, hsame⟩ := List.mem_map.mp hid
    obtain rfl := coherent e (hds he) d hd hsame
    exact .inr (h.closed e he)
  · rw [h.frame d.id hid]
    exact poised d hd

theorem Closed.node {b : Bool} (coherent : c.Coherent) (hk : 0 ≤ k) (hd : d ∈ c.nodes)
    (poised : Poised k t opens c m)
    (h : Closed k t opens (nodesEach d.children) (renewed k d j) m)
    (hconclude : conclude d.id k ((cause k t opens d).map .ok) m = .ok b j') :
    b = d.verdict t ∧ Closed k t opens d.nodes j j' := by
  obtain ⟨_, htold, hself, hothers⟩ := conclude_told (k := k) d.id (cause k t opens d) m
  rw [htold] at hconclude
  cases hconclude
  -- the node may have concluded before, in another place; it comes to the same again
  have hclosing : (j'.nodes.get d.id).account = closing k t opens d := by
    rw [hself]
    rcases poised d hd with hopening | hclosed
    · rw [hopening, closing]
    · rw [hclosed, closing, settle_settle hk]
  refine ⟨isSome_cause k t opens d, fun i hi => ?_, fun e he => ?_⟩
  · have hids : i ∉ d.ids := hi
    rw [nodes_eq, List.map_append, List.mem_append, not_or] at hi
    have hne : i ≠ d.id := fun h => hi.2 (h ▸ List.mem_singleton_self _)
    rw [hothers i hne, h.frame i hi.1, nodes_renewed_of_not_mem hids]
  · by_cases hid : e.id = d.id
    · obtain rfl := coherent e (nodes_subset hd he) d hd hid
      exact hclosing
    · have hbelow : e ∈ nodesEach d.children := by
        rw [nodes_eq] at he
        refine (List.mem_append.mp he).resolve_right fun hself => hid ?_
        rw [List.mem_singleton.mp hself]
      rw [hothers e.id hid, h.closed e hbelow]

theorem Closed.accounts {cs : List (Criterion ε α)} (h : Closed k t opens (nodesEach cs) j j') :
    Criterion.accounts j'.nodes cs = closingEach k t opens cs := by
  rw [closingEach_eq_map]
  exact List.map_congr_left fun c hc => h.closed c (mem_nodesEach.mpr ⟨c, hc, mem_nodes_self c⟩)

theorem found_eq_map (b : Bool) (reason : String) :
    (if b then Check.told reason else none : Check.Finding α) =
      (if b then some reason else none : Option String).map .ok := by
  cases b with
  | true => rfl
  | false => rfl

theorem foundWith_eq {nodes : Store (NodeMemory α)}
    (h : Criterion.accounts nodes d.children = closingEach k t opens d.children) :
    foundWith t nodes d = (cause k t opens d).map .ok := by
  cases d with
  | atom id check => exact (atomFinding_eq t nodes id check).symm
  | all id members =>
    rw [children_all] at h
    rw [foundWith, explained, reasonOfAll_eq, h, found_eq_map, cause]
  | any id members =>
    rw [children_any] at h
    rw [foundWith, explained, reasonOfAny_eq, h, found_eq_map, cause]

theorem noted_of_closing {before after : Store (NodeMemory α)}
    (hopens : opens d.id = (before.get d.id).opening k)
    (h : ∀ e ∈ d.nodes, (after.get e.id).account = closing k t opens e) :
    Noted t k before after d := by
  have hchildren : Criterion.accounts after d.children = closingEach k t opens d.children := by
    rw [closingEach_eq_map]
    exact List.map_congr_left fun e he => h e (mem_nodes_child he)
  have hfound := foundWith_eq hchildren
  obtain ⟨hreason, hsince⟩ := Prod.mk.inj (h d (mem_nodes_self d))
  rw [foundWith] at hfound
  rw [hopens] at hreason hsince
  cases hv : d.verdict t with
  | true =>
    rw [if_pos hv] at hfound
    obtain ⟨reason, hcause, htold⟩ := Option.map_eq_some_iff.mp hfound.symm
    cases htold
    rw [hcause] at hreason hsince
    exact ⟨hsince.trans (if_pos hv).symm, hreason.trans (if_pos hv).symm⟩
  | false =>
    have hnot : ¬ d.verdict t = true := Bool.eq_false_iff.mp hv
    rw [if_neg hnot] at hfound
    rw [Option.map_eq_none_iff.mp hfound.symm] at hreason hsince
    exact ⟨hsince.trans (if_neg hnot).symm, hreason.trans (if_neg hnot).symm⟩

theorem nodesEach_subset_of_children {cs : List (Criterion ε α)} (hcs : ∀ d ∈ cs, d ∈ c.nodes) :
    nodesEach cs ⊆ c.nodes := by
  intro e he
  obtain ⟨d, hd, hed⟩ := mem_nodesEach.mp he
  exact nodes_subset (hcs d hd) hed

end Nodes

section Ask
variable [Scalar α] {p : Problem ε α} {s : State α} {k : Int} {t : Nat → Option String}
  {opens : Nat → String × Int} {before now : ε} {c d : Criterion ε α} {j j' : Judging ε α}
  {es : List (Event ε α)} {b : Bool}

theorem closed_askEach {cs : List (Criterion ε α)} {bs : List Bool} (coherent : c.Coherent)
    (hopens : k = 0 → ∀ i, opens i = ("", -1)) (hcs : ∀ d ∈ cs, d ∈ c.nodes)
    (member : ∀ d ∈ cs, ∀ {j j' : Judging ε α} {es : List (Event ε α)} {b : Bool},
      Poised k t opens c (renewed k d j) → Narrated.ask p s k d j = (es, .ok b j') →
        Consistent t es → b = d.verdict t ∧ Closed k t opens d.nodes j j')
    (poised : Poised k t opens c j) (h : Narrated.askEach p s k cs j = (es, .ok bs j'))
    (consistent : Consistent t es) :
    bs = cs.map (verdict t) ∧ Closed k t opens (nodesEach cs) j j' := by
  induction cs generalizing j bs es with
  | nil =>
    rw [Narrated.askEach] at h
    obtain ⟨rfl, rfl, -⟩ := Scribe.pure_eq_ok_iff.mp h
    exact ⟨rfl, fun _ _ => rfl, fun _ hd => absurd hd List.not_mem_nil⟩
  | cons d ds ih =>
    obtain ⟨b, m, rest, fs, gs, hd, hds, rfl, rfl⟩ := (askEach_cons_eq_ok_iff p s k).mp h
    obtain ⟨hfs, hgs⟩ := consistent_append_iff.mp consistent
    have hnode : d.nodes ⊆ c.nodes := nodes_subset (hcs d List.mem_cons_self)
    have hrest : ∀ e ∈ ds, e ∈ c.nodes := fun e he => hcs e (List.mem_cons_of_mem d he)
    obtain ⟨rfl, hclosed⟩ := member d List.mem_cons_self (poised.renewed hopens) hd hfs
    obtain ⟨rfl, hclosed'⟩ := ih hrest (fun e he => member e (List.mem_cons_of_mem d he))
      (hclosed.poised coherent hnode poised) hds hgs
    exact ⟨rfl, hclosed.append coherent hnode (nodesEach_subset_of_children hrest) hclosed'⟩

theorem closed_ask (coherent : c.Coherent) (hk : 0 ≤ k) (hopens : k = 0 → ∀ i, opens i = ("", -1))
    (hd : d ∈ c.nodes) (poised : Poised k t opens c (renewed k d j))
    (h : Narrated.ask p s k d j = (es, .ok b j')) (consistent : Consistent t es) :
    b = d.verdict t ∧ Closed k t opens d.nodes j j' := by
  -- over the places of the tree, not its nodes: a node may have concluded in an earlier place
  induction d using induct generalizing j j' es b with
  | node d ih =>
    have hchildren : ∀ e ∈ d.children, e ∈ c.nodes := fun e he => mem_nodes_of_child hd he
    have hbelow := nodesEach_subset_of_children hchildren
    have members : ∀ e ∈ d.children, ∀ {j j' : Judging ε α} {es : List (Event ε α)} {b : Bool},
        Poised k t opens c (renewed k e j) → Narrated.ask p s k e j = (es, .ok b j') →
          Consistent t es → b = e.verdict t ∧ Closed k t opens e.nodes j j' :=
      fun e he => ih e he (hchildren e he)
    cases d with
    | atom id check =>
      rw [Narrated.ask] at h
      obtain ⟨finding, m, fs, hasked, hconclude, rfl⟩ := (gather_eq_ok_iff k).mp h
      obtain ⟨htest, rfl⟩ := (test_eq_ok_iff p s k).mp hasked
      have hfinding : finding = (t id).map .ok :=
        Except.ok.inj (consistent id check _ (List.mem_append_left _ (List.mem_singleton_self _)))
      rw [hfinding] at hconclude
      have hclosed : Closed k t opens (nodesEach (atom id check).children)
          (renewed k (atom id check) j) m :=
        ⟨fun i _ => (nodes_test htest).2, fun _ he => absurd he List.not_mem_nil⟩
      exact hclosed.node coherent hk hd (hclosed.poised coherent hbelow poised) hconclude
    | all id members =>
      rw [Narrated.ask] at h
      obtain ⟨bs, m, fs, hasked, hconclude, rfl⟩ := (gather_eq_ok_iff k).mp h
      obtain ⟨rfl, hclosed⟩ := closed_askEach coherent hopens hchildren members poised hasked
        (consistent_append_iff.mp consistent).1
      rw [children_all, allFinding_eq t m.nodes id, foundWith_eq hclosed.accounts] at hconclude
      exact hclosed.node coherent hk hd (hclosed.poised coherent hbelow poised) hconclude
    | any id members =>
      rw [Narrated.ask] at h
      obtain ⟨bs, m, fs, hasked, hconclude, rfl⟩ := (gather_eq_ok_iff k).mp h
      obtain ⟨rfl, hclosed⟩ := closed_askEach coherent hopens hchildren members poised hasked
        (consistent_append_iff.mp consistent).1
      rw [children_any, anyFinding_eq t m.nodes id, foundWith_eq hclosed.accounts] at hconclude
      exact hclosed.node coherent hk hd (hclosed.poised coherent hbelow poised) hconclude

/-- A call with the number `k`, in which timers count from `before` and every atom of `c` comes to
what `t` says. -/
structure Hearing (p : Problem ε α) (s : State α) (k : Int) (t : Nat → Option String)
    (before now : ε) (c : Criterion ε α) : Prop where
  coherent : c.Coherent
  steady : c.Steady
  begins : k = 0 → before = now
  found : ∀ i check, .atom i check ∈ c.nodes →
    check.finding p s k before now = .ok ((t i).map .ok)

omit [Scalar α] in
theorem concludes (id : Nat) (b : Bool) (reason : String) (j : Judging ε α) :
    ∃ a j', conclude id k (if b then Check.told reason else none) j = .ok a j' := by
  cases b with
  | true => exact ⟨_, _, rfl⟩
  | false => exact ⟨_, _, rfl⟩

omit [Scalar α] in
theorem consistent_answered (t : Nat → Option String) (id : Nat)
    (answer : Except (Fault α) Bool) :
    Consistent t ([.answered id answer] : List (Event ε α)) :=
  fun _ _ _ h => nomatch List.mem_singleton.mp h

omit [Scalar α] in
theorem gather_returns {β : Type} {asking : Narrated.Inquiry ε α β}
    {finding : Store (NodeMemory α) → β → Check.Finding α} {found : β} {m : Judging ε α}
    (hasked : asking (renewed k d j) = (es, .ok found m)) (timed : c.Timed before now m)
    (consistent : Consistent t es)
    (concludes : ∃ b j', conclude d.id k (finding m.nodes found) m = .ok b j') :
    ∃ es b j', Narrated.gather k d asking finding j = (es, .ok b j') ∧ c.Timed before now j' ∧
      Consistent t es := by
  obtain ⟨b, j', hconclude⟩ := concludes
  have htimed := timed.conclude (k := k) d.id (finding m.nodes found)
  rw [hconclude] at htimed
  refine ⟨_, b, j', (gather_eq_ok_iff k).mpr ⟨found, m, es, hasked, hconclude, rfl⟩, htimed, ?_⟩
  exact consistent_append_iff.mpr ⟨consistent, consistent_answered t d.id _⟩

namespace Hearing
variable (h : Hearing p s k t before now c)
include h

theorem askEach_returns {cs : List (Criterion ε α)} (hcs : ∀ d ∈ cs, d ∈ c.nodes)
    (member : ∀ d ∈ cs, ∀ {j}, c.Timed before now (renewed k d j) →
      ∃ es b j', Narrated.ask p s k d j = (es, .ok b j') ∧ c.Timed before now j' ∧ Consistent t es)
    (timed : c.Timed before now j) :
    ∃ es bs j', Narrated.askEach p s k cs j = (es, .ok bs j') ∧ c.Timed before now j' ∧
      Consistent t es := by
  induction cs generalizing j with
  | nil => exact ⟨[], [], j, rfl, timed, fun _ _ _ he => absurd he List.not_mem_nil⟩
  | cons d ds ih =>
    have htimed := timed.renewed h.coherent h.begins (hcs d List.mem_cons_self)
    obtain ⟨es, b, m, hask, htimed, hes⟩ := member d List.mem_cons_self htimed
    obtain ⟨fs, bs, j', hasks, htimed', hfs⟩ := ih (fun e he => hcs e (List.mem_cons_of_mem d he))
      (fun e he => member e (List.mem_cons_of_mem d he)) htimed
    refine ⟨es ++ fs, b :: bs, j', ?_, htimed', consistent_append_iff.mpr ⟨hes, hfs⟩⟩
    exact (askEach_cons_eq_ok_iff p s k).mpr ⟨b, m, bs, es, fs, hask, hasks, rfl, rfl⟩

theorem ask_returns (hd : d ∈ c.nodes) (timed : c.Timed before now (renewed k d j)) :
    ∃ es b j', Narrated.ask p s k d j = (es, .ok b j') ∧ c.Timed before now j' ∧
      Consistent t es := by
  induction d using induct generalizing j with
  | node d ih =>
    have hchildren : ∀ e ∈ d.children, e ∈ c.nodes := fun e he => mem_nodes_of_child hd he
    obtain ⟨es, bs, m, hasked, htimed, hes⟩ :=
      h.askEach_returns hchildren (fun e he _ => ih e he (hchildren e he)) timed
    cases d with
    | atom id check =>
      have htest : check.test id p s k (renewed k (atom id check) j) =
          .ok ((t id).map .ok) (renewed k (atom id check) j) := by
        rw [Check.test_eq (h.steady id check hd) timed.env fun seconds clock hcheck =>
          timed.started id seconds clock (hcheck ▸ hd), h.found id check hd]
        rfl
      obtain ⟨j', hconclude, -⟩ :=
        conclude_told (k := k) id (t id) (renewed k (atom id check) j)
      rw [Narrated.ask]
      refine gather_returns ((test_eq_ok_iff p s k).mpr ⟨htest, rfl⟩) timed ?_ ⟨_, j', hconclude⟩
      intro i check' finding he
      cases List.mem_singleton.mp he
      rfl
    | all id members =>
      rw [Narrated.ask]
      exact gather_returns hasked htimed hes (concludes id _ _ m)
    | any id members =>
      rw [Narrated.ask]
      exact gather_returns hasked htimed hes (concludes id _ _ m)

end Hearing
end Ask
end Geodescent.Criterion
