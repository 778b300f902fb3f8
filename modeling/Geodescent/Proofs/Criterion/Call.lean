import Mathlib.Data.List.Basic
import Geodescent.Proofs.Criterion.Heard

/-! One call of a tree with distinct nodes. `ask_ok` says what every node answers, in which order the
atoms are checked and the nodes answer, and what every node remembers afterwards. -/
namespace Geodescent.Criterion
variable {ε α : Type}

def verdict (t : Nat → Option String) (c : Criterion ε α) : Bool := c.holds fun i => (t i).isSome

def entry (t : Nat → Option String) : Criterion ε α → List (Event ε α)
  | .atom id check =>
    [.checked id check (.ok ((t id).map .ok)), .answered id (.ok (t id).isSome)]
  | c => [.answered c.id (.ok (c.verdict t))]

def report (t : Nat → Option String) (c : Criterion ε α) : List (Event ε α) :=
  c.nodes.flatMap (entry t)

def explained (t : Nat → Option String) (nodes : Store (NodeMemory α)) : Criterion ε α → String
  | .atom id _ => (t id).getD ""
  | .all _ members => reasonOfAll nodes members
  | .any _ members => reasonOfAny nodes members (members.map (verdict t))

/-- What a node remembers after a call in which `t` was heard. -/
structure Noted (t : Nat → Option String) (k : Int) (before after : Store (NodeMemory α))
    (d : Criterion ε α) : Prop where
  since : (after.get d.id).since =
    if d.verdict t then
      if ((before.get d.id).opening k).2 < 0 then k else ((before.get d.id).opening k).2
    else -1
  reason : (after.get d.id).reason =
    if d.verdict t then d.explained t after else ((before.get d.id).opening k).1

/-- The memory after a call is noted in the nodes `ds` and untouched elsewhere. -/
structure Asked (t : Nat → Option String) (k : Int) (ds : List (Criterion ε α))
    (before after : Store (NodeMemory α)) : Prop where
  frame : ∀ i, i ∉ ds.map id → after.get i = before.get i
  noted : ∀ d ∈ ds, Noted t k before after d

section Congr
variable {nodes nodes' : Store (NodeMemory α)}

theorem latest_cons (nodes : Store (NodeMemory α)) (c e : Criterion ε α)
    (es : List (Criterion ε α)) : latest nodes c (e :: es) =
      latest nodes (if (nodes.get c.id).since < (nodes.get e.id).since then e else c) es := rfl

theorem latest_congr {c : Criterion ε α} {cs : List (Criterion ε α)}
    (h : ∀ e ∈ c :: cs, nodes'.get e.id = nodes.get e.id) :
    latest nodes' c cs = latest nodes c cs := by
  induction cs generalizing c with
  | nil => rfl
  | cons e es ih =>
    obtain ⟨hc, he, hes⟩ : nodes'.get c.id = nodes.get c.id ∧ nodes'.get e.id = nodes.get e.id ∧
        ∀ f ∈ es, nodes'.get f.id = nodes.get f.id := by
      simpa only [List.forall_mem_cons] using h
    rw [latest_cons, latest_cons, hc, he]
    split
    · exact ih (List.forall_mem_cons.mpr ⟨he, hes⟩)
    · exact ih (List.forall_mem_cons.mpr ⟨hc, hes⟩)

theorem latest_split (nodes : Store (NodeMemory α)) (c : Criterion ε α)
    (cs : List (Criterion ε α)) : ∃ pre post, c :: cs = pre ++ latest nodes c cs :: post ∧
      (∀ x ∈ pre, (nodes.get x.id).since < (nodes.get (latest nodes c cs).id).since) ∧
      ∀ x ∈ post, (nodes.get x.id).since ≤ (nodes.get (latest nodes c cs).id).since := by
  induction cs generalizing c with
  | nil =>
    exact ⟨[], [], rfl, fun _ hx => absurd hx List.not_mem_nil,
      fun _ hx => absurd hx List.not_mem_nil⟩
  | cons e es ih =>
    rw [latest_cons]
    split
    · have hce : (nodes.get c.id).since < (nodes.get e.id).since := ‹_›
      obtain ⟨pre, post, hsplit, hpre, hpost⟩ := ih e
      refine ⟨c :: pre, post, congrArg (c :: ·) hsplit, ?_, hpost⟩
      refine List.forall_mem_cons.mpr ⟨?_, hpre⟩
      -- the first of the rest is not later than the latest of the rest
      rcases pre with _ | ⟨y, pre⟩
      · rw [← (List.cons.inj hsplit).1]
        exact hce
      · rw [(List.cons.inj hsplit).1] at hce
        exact Int.lt_trans hce (hpre y List.mem_cons_self)
    · have hec : (nodes.get e.id).since ≤ (nodes.get c.id).since := Int.not_lt.mp ‹_›
      obtain ⟨pre, post, hsplit, hpre, hpost⟩ := ih c
      generalize latest nodes c es = best at hsplit hpre hpost ⊢
      rcases pre with _ | ⟨y, pre⟩
      · obtain ⟨rfl, rfl⟩ := List.cons.inj hsplit
        exact ⟨[], e :: es, rfl, hpre, List.forall_mem_cons.mpr ⟨hec, hpost⟩⟩
      · obtain ⟨rfl, rfl⟩ := List.cons.inj hsplit
        obtain ⟨hc, hrest⟩ := List.forall_mem_cons.mp hpre
        refine ⟨c :: e :: pre, post, rfl, ?_, hpost⟩
        refine List.forall_mem_cons.mpr ⟨hc, List.forall_mem_cons.mpr ⟨?_, hrest⟩⟩
        exact Int.lt_of_le_of_lt hec hc

theorem latest_mem (nodes : Store (NodeMemory α)) (c : Criterion ε α)
    (cs : List (Criterion ε α)) : latest nodes c cs ∈ c :: cs := by
  obtain ⟨pre, post, hsplit, -⟩ := latest_split nodes c cs
  rw [hsplit]
  exact List.mem_append_right pre List.mem_cons_self

theorem reasonOfAll_congr {cs : List (Criterion ε α)}
    (h : ∀ e ∈ cs, nodes'.get e.id = nodes.get e.id) :
    reasonOfAll nodes' cs = reasonOfAll nodes cs := by
  cases cs with
  | nil => rfl
  | cons c cs => rw [reasonOfAll, reasonOfAll, latest_congr h, h _ (latest_mem nodes c cs)]

theorem reasonOfAny_congr {cs : List (Criterion ε α)}
    (h : ∀ e ∈ cs, nodes'.get e.id = nodes.get e.id) (answers : List Bool) :
    reasonOfAny nodes' cs answers = reasonOfAny nodes cs answers := by
  unfold reasonOfAny
  apply congrArg
  apply List.filterMap_congr
  rintro ⟨e, answer⟩ he
  dsimp only
  rw [h e (List.of_mem_zip he).1]

theorem explained_congr {t : Nat → Option String} {d : Criterion ε α}
    (h : ∀ e ∈ d.children, nodes'.get e.id = nodes.get e.id) :
    d.explained t nodes' = d.explained t nodes := by
  cases d with
  | atom id check => rfl
  | all id members => exact reasonOfAll_congr h
  | any id members => exact reasonOfAny_congr h _

end Congr

theorem Noted.congr {t : Nat → Option String} {k : Int}
    {before after before' after' : Store (NodeMemory α)} {d : Criterion ε α}
    (h : Noted t k before after d)
    (hbefore : (before'.get d.id).opening k = (before.get d.id).opening k)
    (hafter : after'.get d.id = after.get d.id)
    (hmembers : ∀ e ∈ d.children, after'.get e.id = after.get e.id) :
    Noted t k before' after' d where
  since := by
    rw [hafter, hbefore]
    exact h.since
  reason := by
    rw [hafter, hbefore, explained_congr hmembers]
    exact h.reason

theorem Asked.append {t : Nat → Option String} {k : Int} {ds es : List (Criterion ε α)}
    {before mid after : Store (NodeMemory α)} (distinct : ((ds ++ es).map id).Nodup)
    (closed : ∀ d ∈ ds, ∀ e ∈ d.children, e ∈ ds) (hds : Asked t k ds before mid)
    (hes : Asked t k es mid after) : Asked t k (ds ++ es) before after := by
  rw [List.map_append] at distinct
  obtain ⟨-, -, apart⟩ := List.nodup_append.mp distinct
  have later : ∀ d ∈ ds, after.get d.id = mid.get d.id := fun d hd =>
    hes.frame d.id fun hi => apart _ (List.mem_map_of_mem hd) _ hi rfl
  have earlier : ∀ e ∈ es, mid.get e.id = before.get e.id := fun e he =>
    hds.frame e.id fun hi => apart _ hi _ (List.mem_map_of_mem he) rfl
  refine ⟨fun i hi => ?_, fun d hd => ?_⟩
  · rw [List.map_append, List.mem_append, not_or] at hi
    rw [hes.frame i hi.2, hds.frame i hi.1]
  · rcases List.mem_append.mp hd with hd | hd
    · exact (hds.noted d hd).congr rfl (later d hd) fun e he => later e (closed d hd e he)
    · refine (hes.noted d hd).congr ?_ rfl fun _ _ => rfl
      rw [earlier d hd]

section Ask
variable {k : Int} {t : Nat → Option String} {j j' : Judging ε α} {c : Criterion ε α}

def foundWith (t : Nat → Option String) (nodes : Store (NodeMemory α)) (c : Criterion ε α) :
    Check.Finding α :=
  if c.verdict t then Check.told (c.explained t nodes) else none

theorem allFinding_eq (t : Nat → Option String) (nodes : Store (NodeMemory α)) (id : Nat)
    (members : List (Criterion ε α)) :
    allFinding members nodes (members.map (verdict t)) = foundWith t nodes (.all id members) := by
  have h : (members.map (verdict t)).all (· == true) = (all id members).verdict t := by
    rw [List.all_map, verdict, holds, holdsAll_eq_all]
    simp only [Function.comp_def, beq_true]
    rfl
  rw [allFinding, foundWith, h]
  rfl

theorem anyFinding_eq (t : Nat → Option String) (nodes : Store (NodeMemory α)) (id : Nat)
    (members : List (Criterion ε α)) :
    anyFinding members nodes (members.map (verdict t)) = foundWith t nodes (.any id members) := by
  have h : (members.map (verdict t)).any (· == true) = (any id members).verdict t := by
    rw [List.any_map, verdict, holds, holdsAny_eq_any]
    simp only [Function.comp_def, beq_true]
    rfl
  rw [anyFinding, foundWith, h]
  rfl

theorem atomFinding_eq (t : Nat → Option String) (nodes : Store (NodeMemory α)) (id : Nat)
    (check : Check ε α) : (t id).map .ok = foundWith t nodes (.atom id check) := by
  change _ = if (t id).isSome then Check.told ((t id).getD "") else none
  rcases t id with _ | reason
  · rfl
  · rfl

theorem asked_conclude {m : Judging ε α} {b : Bool} (distinct : c.Distinct)
    (frame : ∀ i, i ∉ c.ids → m.nodes.get i = (renewed k c j).nodes.get i)
    (own : (m.nodes.get c.id).account = ((renewed k c j).nodes.get c.id).account)
    (below : ∀ d ∈ nodesEach c.children, Noted t k (renewed k c j).nodes m.nodes d)
    (h : conclude c.id k (foundWith t m.nodes c) m = .ok b j') :
    b = c.verdict t ∧ Asked t k c.nodes j.nodes j'.nodes := by
  rw [Distinct, ids_eq] at distinct
  obtain ⟨-, -, apart⟩ := List.nodup_append.mp distinct
  have hbelow : ∀ d ∈ nodesEach c.children, d.id ≠ c.id := fun d hd =>
    apart _ (id_mem_idsEach hd) _ (List.mem_singleton_self _)
  have hmembers : ∀ e ∈ c.children, e.id ≠ c.id := fun e he =>
    hbelow e (mem_nodesEach.mpr ⟨e, he, mem_nodes_self e⟩)
  have haccount : (m.nodes.get c.id).account = (j.nodes.get c.id).opening k :=
    own.trans (account_renewed c)
  -- whatever the node answers, it writes its own memory and no other
  have key : b = c.verdict t ∧ (∀ i, i ≠ c.id → j'.nodes.get i = m.nodes.get i) ∧
      Noted t k j.nodes j'.nodes c := by
    cases hv : c.verdict t with
    | true =>
      rw [foundWith, if_pos hv] at h
      rcases conclude_eq_ok_iff.mp h with ⟨reason, hr, rfl, rfl⟩ | ⟨hr, -⟩
      · cases hr
        have hframe : ∀ i, i ≠ c.id →
            (m.hold c.id k (c.explained t m.nodes)).nodes.get i = m.nodes.get i :=
          fun i hi => nodes_revise_of_ne hi _ m
        have hself := nodes_revise_self c.id (fun n : NodeMemory α =>
          { n with reason := c.explained t m.nodes,
                   since := if n.since < 0 then k else n.since }) m
        refine ⟨rfl, hframe, ?_, ?_⟩
        · rw [Judging.hold, hself, hv, ← haccount]
          rfl
        · rw [explained_congr fun e he => hframe e.id (hmembers e he), Judging.hold, hself, hv]
          rfl
      · cases hr
    | false =>
      rw [foundWith, if_neg (by rw [hv]; exact Bool.false_ne_true)] at h
      rcases conclude_eq_ok_iff.mp h with ⟨reason, hr, -⟩ | ⟨-, rfl, rfl⟩
      · cases hr
      · have hself := nodes_revise_self c.id (fun n : NodeMemory α => { n with since := -1 }) m
        refine ⟨rfl, fun i hi => nodes_revise_of_ne hi _ m, ?_, ?_⟩
        · rw [Judging.lapse, hself, hv]
          rfl
        · rw [Judging.lapse, hself, hv, ← haccount]
          rfl
  obtain ⟨hb, hframe, hnoted⟩ := key
  refine ⟨hb, fun i hi => ?_, fun d hd => ?_⟩
  · have hne : i ≠ c.id := fun h => hi (h ▸ id_mem_ids (mem_nodes_self c))
    rw [hframe i hne, frame i hi, nodes_renewed_of_not_mem hi]
  · rw [nodes_eq] at hd
    rcases List.mem_append.mp hd with hd | hd
    · have hchildren : ∀ e ∈ d.children, e ∈ nodesEach c.children := by
        obtain ⟨f, hf, hdf⟩ := mem_nodesEach.mp hd
        exact fun e he => mem_nodesEach.mpr ⟨f, hf, mem_nodes_of_child hdf he⟩
      refine (below d hd).congr (opening_renewed c).symm (hframe _ (hbelow d hd)) fun e he => ?_
      exact hframe e.id (hbelow e (hchildren e he))
    · rw [List.mem_singleton.mp hd]
      exact hnoted

theorem asked_members {m : Judging ε α} {b : Bool} (distinct : c.Distinct)
    (below : Asked t k (nodesEach c.children) (renewed k c j).nodes m.nodes)
    (h : conclude c.id k (foundWith t m.nodes c) m = .ok b j') :
    b = c.verdict t ∧ Asked t k c.nodes j.nodes j'.nodes := by
  have hids : c.ids = (nodesEach c.children).map id ++ [c.id] := ids_eq c
  have hself : c.id ∉ (nodesEach c.children).map id := by
    rw [Distinct, hids] at distinct
    exact fun hi => (List.nodup_append.mp distinct).2.2 _ hi _ (List.mem_singleton_self _) rfl
  refine asked_conclude distinct (fun i hi => below.frame i ?_) ?_ below.noted h
  · rw [hids, List.mem_append, not_or] at hi
    exact hi.1
  · rw [below.frame c.id hself]

theorem report_eq (t : Nat → Option String) (c : Criterion ε α) :
    c.report t = c.children.flatMap (report t) ++ entry t c := by
  rw [report, nodes_eq, List.flatMap_append, nodesEach_eq_flatMap, List.flatMap_assoc]
  simp only [List.flatMap_cons, List.flatMap_nil, List.append_nil]
  rfl

variable [Scalar α] {p : Problem ε α} {s : State α} {es : List (Event ε α)}

theorem askEach_ok {cs : List (Criterion ε α)} {bs : List Bool} (distinct : (idsEach cs).Nodup)
    (member : ∀ c ∈ cs, ∀ {j j' : Judging ε α} {es : List (Event ε α)} {b : Bool}, c.Distinct →
      Narrated.ask p s k c j = (es, .ok b j') → Consistent t es →
        b = c.verdict t ∧ es = c.report t ∧ Asked t k c.nodes j.nodes j'.nodes)
    (h : Narrated.askEach p s k cs j = (es, .ok bs j')) (consistent : Consistent t es) :
    bs = cs.map (verdict t) ∧ es = cs.flatMap (report t) ∧
      Asked t k (nodesEach cs) j.nodes j'.nodes := by
  induction cs generalizing j bs es with
  | nil =>
    rw [Narrated.askEach] at h
    obtain ⟨rfl, rfl, rfl⟩ := Scribe.pure_eq_ok_iff.mp h
    exact ⟨rfl, rfl, fun _ _ => rfl, fun _ hd => absurd hd List.not_mem_nil⟩
  | cons c cs ih =>
    obtain ⟨b, m, rest, fs, gs, hc, hcs, rfl, rfl⟩ := (askEach_cons_eq_ok_iff p s k).mp h
    obtain ⟨hfs, hgs⟩ := consistent_append_iff.mp consistent
    have hdistinct : (c.ids ++ idsEach cs).Nodup := idsEach_cons c cs ▸ distinct
    obtain ⟨hcd, hcsd, -⟩ := List.nodup_append.mp hdistinct
    obtain ⟨rfl, rfl, asked⟩ := member c List.mem_cons_self hcd hc hfs
    obtain ⟨rfl, rfl, others⟩ :=
      ih hcsd (fun e he => member e (List.mem_cons_of_mem c he)) hcs hgs
    refine ⟨rfl, List.flatMap_cons.symm, ?_⟩
    exact asked.append distinct (fun d hd e he => mem_nodes_of_child hd he) others

theorem ask_ok {b : Bool} (distinct : c.Distinct)
    (h : Narrated.ask p s k c j = (es, .ok b j')) (consistent : Consistent t es) :
    b = c.verdict t ∧ es = c.report t ∧ Asked t k c.nodes j.nodes j'.nodes := by
  -- from the members up: what a node finds is a matter of what its members remember
  induction c using induct generalizing b j j' es with
  | node c ih =>
    have hchildren : (idsEach c.children).Nodup := by
      rw [Distinct, ids_eq] at distinct
      exact (List.nodup_append.mp distinct).1
    cases c with
    | atom id check =>
      rw [Narrated.ask] at h
      obtain ⟨finding, m, fs, hasked, hconclude, rfl⟩ := (gather_eq_ok_iff k).mp h
      obtain ⟨htest, rfl⟩ := (test_eq_ok_iff p s k).mp hasked
      have hfinding : finding = (t id).map .ok :=
        Except.ok.inj (consistent id check _ (List.mem_append_left _ (List.mem_singleton_self _)))
      rw [hfinding, atomFinding_eq t m.nodes id check] at hconclude
      have hne : ∀ i, i ∉ (atom id check).ids → i ≠ id := by
        rintro i hi rfl
        exact hi (List.mem_singleton_self i)
      obtain ⟨rfl, asked⟩ := asked_conclude distinct
        (fun i hi => (nodes_test htest).1 (hne i hi)) (nodes_test htest).2
        (fun d hd => absurd hd List.not_mem_nil) hconclude
      refine ⟨rfl, ?_, asked⟩
      rw [hfinding]
      rfl
    | all id members =>
      rw [Narrated.ask] at h
      obtain ⟨bs, m, fs, hasked, hconclude, rfl⟩ := (gather_eq_ok_iff k).mp h
      obtain ⟨rfl, rfl, below⟩ :=
        askEach_ok hchildren ih hasked (consistent_append_iff.mp consistent).1
      rw [children_all, allFinding_eq t m.nodes id members] at hconclude
      obtain ⟨rfl, asked⟩ := asked_members distinct below hconclude
      exact ⟨rfl, (report_eq t (all id members)).symm, asked⟩
    | any id members =>
      rw [Narrated.ask] at h
      obtain ⟨bs, m, fs, hasked, hconclude, rfl⟩ := (gather_eq_ok_iff k).mp h
      obtain ⟨rfl, rfl, below⟩ :=
        askEach_ok hchildren ih hasked (consistent_append_iff.mp consistent).1
      rw [children_any, anyFinding_eq t m.nodes id members] at hconclude
      obtain ⟨rfl, asked⟩ := asked_members distinct below hconclude
      exact ⟨rfl, (report_eq t (any id members)).symm, asked⟩

end Ask
end Geodescent.Criterion
