import Geodescent.Proofs.Observation.Congruent

/-! Computations that answer alike in states that are alike, and memories that agree on some of the
actions. What a record says is the same in these, and a decorator that has no action among those that
are kept in view changes nothing of what is seen there. -/
namespace Geodescent

/-- Begun in related states, a computation that returns gives the same answer from both, and ends in
related states. -/
def Mirrored {σ φ β : Type} (R : σ → σ → Prop) (m : EStateM φ σ β) : Prop :=
  ∀ s s', R s s' → ∀ b t, m s = .ok b t → ∃ t', m s' = .ok b t' ∧ R t t'

theorem Mirrored.of_twin {σ φ β : Type} {R E : σ → σ → Prop} {m : EStateM φ σ β}
    (h : Twin R R E m m) : Mirrored R m := fun _ _ hs _ _ ht => h.forward hs ht

variable {ε α : Type}

/-- The same surroundings, and the same memory of the actions `keep`. -/
structure Observing.Agrees (keep : List Nat) (o o' : Observing ε α) : Prop where
  env : o'.env = o.env
  memory : ∀ i ∈ keep, o'.memory.get i = o.memory.get i

namespace Observing.Agrees
variable {keep : List Nat} {o o' o'' : Observing ε α}

theorem trans (h : o.Agrees keep o') (g : o'.Agrees keep o'') : o.Agrees keep o'' :=
  ⟨g.env.trans h.env, fun i hi => (g.memory i hi).trans (h.memory i hi)⟩

theorem symm (h : o.Agrees keep o') : o'.Agrees keep o :=
  ⟨h.env.symm, fun i hi => (h.memory i hi).symm⟩

theorem revise (h : o.Agrees keep o') (id : Nat) (f : ActionMemory α → ActionMemory α) :
    (o.revise id f).Agrees keep (o'.revise id f) := by
  refine ⟨h.env, fun i hi => ?_⟩
  rw [memory_revise, memory_revise]
  by_cases hid : id = i
  · subst hid
    rw [if_pos rfl, if_pos rfl, h.memory id hi]
  · rw [if_neg hid, if_neg hid, h.memory i hi]

theorem respected (keep : List Nat) : Respected keep (Agrees (ε := ε) (α := α) keep) where
  env h := h.env
  previous h i hi := congrArg ActionMemory.previous (h.memory i hi)
  surrounded h _ := ⟨rfl, h.memory⟩
  remember h id _ := h.revise id _
  record h id _ := h.revise id _
  erase h id := h.revise id _
  write h _ _ := ⟨h.env, h.memory⟩

end Observing.Agrees

namespace RecordAction
variable {memory memory' : Store (ActionMemory α)}

theorem recorded_congr {a : RecordAction}
    (h : ∀ i ∈ a.ids, (memory'.get i).recorded = (memory.get i).recorded) :
    a.recorded memory' = a.recorded memory := by
  rw [recorded, recorded, h a.id a.own_id_mem_ids]

theorem findEach?_congr {symbol : Option Token} {as : List RecordAction}
    (h : ∀ a ∈ as, find? memory' symbol a = find? memory symbol a) :
    findEach? memory' symbol as = findEach? memory symbol as := by
  induction as with
  | nil => rfl
  | cons a as ih =>
    have hrest := ih fun b hb => h b (List.mem_cons_of_mem a hb)
    rw [findEach?, findEach?, h a List.mem_cons_self, hrest]

theorem find?_congr {symbol : Option Token} {a : RecordAction}
    (h : ∀ i ∈ a.ids, (memory'.get i).recorded = (memory.get i).recorded) :
    find? memory' symbol a = find? memory symbol a := by
  induction a using induct with
  | leaf id kind cadence => rw [find?, find?, h id (List.mem_singleton_self id)]
  | group id members ih =>
    rw [find?, find?]
    refine findEach?_congr fun a ha => ih a ha fun i hi => h i ?_
    exact List.mem_cons_of_mem id (mem_idsEach.mpr ⟨a, ha, hi⟩)
  | every cadence a ih => rw [find?, find?, recorded_congr (a := a) h]

theorem values_congr {token : Datum α} {a : RecordAction}
    (h : ∀ i ∈ a.ids, (memory'.get i).recorded = (memory.get i).recorded) :
    values memory' token a = values memory token a := by
  cases a with
  | leaf id kind cadence => rfl
  | group id members =>
    have hmembers : findEach? memory' (TokenList.symbol? token) members =
        findEach? memory (TokenList.symbol? token) members := by
      refine findEach?_congr fun a ha => find?_congr fun i hi => h i ?_
      exact List.mem_cons_of_mem id (mem_idsEach.mpr ⟨a, ha, hi⟩)
    rw [values, values, hmembers]
  | every cadence a => rfl

end RecordAction

namespace Decorator
variable [Scalar α] {t : Moment ε α} {phase : Phase} {keep : List Nat} {d : Decorator ε α}
  {o o' : Observing ε α}

theorem agrees_of_unseen (hd : d.Library)
    (hcost : t.problem.Undisturbing) (hunseen : ∀ i ∈ keep, i ∉ d.ids)
    (h : d.tell phase t o = .ok () o') : o.Agrees keep o' := by
  have hspares : d.Spares keep := by
    cases d with
    | custom className fields hook => exact absurd hd id
    | plain | debug _ | record _ => exact hunseen
  refine ⟨?_, tell_spares hspares h⟩
  cases d with
  | plain =>
    cases h
    rfl
  | debug a =>
    obtain ⟨gs, hrun⟩ := tell_debug h
    exact (DebugAction.run_ok hrun).env hcost
  | record g =>
    by_cases hphase : phase = .start
    · subst hphase
      obtain ⟨u, emptied, refreshed⟩ := tell_record_start h
      rw [refreshed.env, emptied.env]
    · obtain ⟨cs, ds, hrun⟩ := tell_record hphase h
      exact (RecordAction.run_ok hrun).env hcost
  | custom className fields hook => exact absurd hd id

end Decorator
end Geodescent
