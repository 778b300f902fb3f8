import Geodescent.Proofs.Criterion.Memory
import Geodescent.Proofs.Transcript

/-! Asking a tree, with a list of what happens: an atom is checked, a node answers. `outcome_ask` says
that leaving the list out gives the asking itself, and a call that fails shows where it does. -/
namespace Geodescent

inductive Event (ε α : Type) where
  | checked (id : Nat) (check : Check ε α) (finding : Except (Fault α) (Check.Finding α))
  | answered (id : Nat) (answer : Except (Fault α) Bool)

def Event.Calm {ε α : Type} : Event ε α → Prop
  | .checked _ _ finding => ∃ f, finding = .ok f
  | .answered _ answer => ∃ b, answer = .ok b

instance {ε α : Type} : DecidablePred (Event.Calm : Event ε α → Prop) := fun e =>
  match e with
  | .checked _ _ (.ok f) => .isTrue ⟨f, rfl⟩
  | .checked _ _ (.error _) => .isFalse fun ⟨_, h⟩ => nomatch h
  | .answered _ (.ok b) => .isTrue ⟨b, rfl⟩
  | .answered _ (.error _) => .isFalse fun ⟨_, h⟩ => nomatch h

def given {φ σ β : Type} : EStateM.Result φ σ β → Except φ β
  | .ok b _ => .ok b
  | .error e _ => .error e

namespace Criterion
variable {ε α : Type} [Scalar α]

def allFinding (members : List (Criterion ε α)) (nodes : Store (NodeMemory α))
    (answers : List Bool) : Check.Finding α :=
  if answers.all (· == true) then Check.told (reasonOfAll nodes members) else none

def anyFinding (members : List (Criterion ε α)) (nodes : Store (NodeMemory α))
    (answers : List Bool) : Check.Finding α :=
  if answers.any (· == true) then Check.told (reasonOfAny nodes members answers) else none

namespace Narrated

abbrev Inquiry (ε α β : Type) := Scribe (Event ε α) (Fault α) (Judging ε α) β

/-- A node renews what it remembers, gathers what it needs and answers. -/
def gather {β : Type} (k : Int) (c : Criterion ε α) (asking : Inquiry ε α β)
    (finding : Store (NodeMemory α) → β → Check.Finding α) : Inquiry ε α Bool := do
  Scribe.tacit (modify (renewed k c))
  let found ← asking
  let j ← Scribe.tacit get
  Scribe.entering (fun _ r => .answered c.id (given r)) (conclude c.id k (finding j.nodes found))

def test (p : Problem ε α) (s : State α) (k : Int) (id : Nat) (check : Check ε α) :
    Inquiry ε α (Check.Finding α) :=
  Scribe.entering (fun _ r => .checked id check (given r)) (check.test id p s k)

mutual
def ask (p : Problem ε α) (s : State α) (k : Int) : Criterion ε α → Inquiry ε α Bool
  | .atom id check => gather k (.atom id check) (test p s k id check) fun _ finding => finding
  | .all id members => gather k (.all id members) (askEach p s k members) (allFinding members)
  | .any id members => gather k (.any id members) (askEach p s k members) (anyFinding members)

def askEach (p : Problem ε α) (s : State α) (k : Int) :
    List (Criterion ε α) → Inquiry ε α (List Bool)
  | [] => pure []
  | c :: cs => do
    let answer ← ask p s k c
    let answers ← askEach p s k cs
    pure (answer :: answers)
end

end Narrated

section
variable (p : Problem ε α) (s : State α) (k : Int)

omit [Scalar α] in
theorem outcome_gather {β : Type} (c : Criterion ε α) (asking : Narrated.Inquiry ε α β)
    (finding : Store (NodeMemory α) → β → Check.Finding α) :
    (Narrated.gather k c asking finding).outcome = (do
      if k = 0 then modify (renew c)
      let found ← asking.outcome
      let j ← get
      conclude c.id k (finding j.nodes found)) := by
  simp only [Narrated.gather, Scribe.outcome_bind, Scribe.outcome_tacit, Scribe.outcome_entering]
  by_cases h : k = 0
  · have hr : renewed k c = renew c := funext fun j => if_pos h
    rw [hr, if_pos h]
  · have hr : renewed k c = fun j => j := funext fun j => if_neg h
    rw [hr, if_neg h]
    rfl

theorem outcome_askEach {cs : List (Criterion ε α)}
    (h : ∀ c ∈ cs, (Narrated.ask p s k c).outcome = ask p s k c) :
    (Narrated.askEach p s k cs).outcome = askEach p s k cs := by
  induction cs with
  | nil => rfl
  | cons c cs ih =>
    have hcs := ih fun c hc => h c (List.mem_cons_of_mem _ hc)
    simp only [Narrated.askEach, askEach, Scribe.outcome_bind, Scribe.outcome_pure, hcs,
      h c List.mem_cons_self]

theorem outcome_ask (c : Criterion ε α) : (Narrated.ask p s k c).outcome = ask p s k c := by
  induction c using induct with
  | node c ih =>
    cases c with
    | atom id check =>
      rw [Narrated.ask, outcome_gather, ask]
      rfl
    | all id members =>
      have hmembers : (Narrated.askEach p s k members).outcome = askEach p s k members :=
        outcome_askEach p s k ih
      rw [Narrated.ask, outcome_gather, ask, hmembers]
      rfl
    | any id members =>
      have hmembers : (Narrated.askEach p s k members).outcome = askEach p s k members :=
        outcome_askEach p s k ih
      rw [Narrated.ask, outcome_gather, ask, hmembers]
      rfl

omit [Scalar α] in
theorem gather_eq_ok_iff {β : Type} {c : Criterion ε α} {asking : Narrated.Inquiry ε α β}
    {finding : Store (NodeMemory α) → β → Check.Finding α} {j j' : Judging ε α} {b : Bool}
    {es : List (Event ε α)} :
    Narrated.gather k c asking finding j = (es, .ok b j') ↔
      ∃ found m fs, asking (renewed k c j) = (fs, .ok found m) ∧
        conclude c.id k (finding m.nodes found) m = .ok b j' ∧
        es = fs ++ [.answered c.id (.ok b)] := by
  constructor
  · intro h
    obtain ⟨_, r, hrenew, h₁⟩ := Scribe.tacit_bind_eq_ok_iff.mp h
    cases hrenew
    obtain ⟨found, m, fs, _, hasked, h₂, rfl⟩ := Scribe.bind_eq_ok_iff.mp h₁
    obtain ⟨_, n, hget, h₃⟩ := Scribe.tacit_bind_eq_ok_iff.mp h₂
    cases hget
    obtain ⟨hconclude, rfl⟩ := Scribe.entering_eq_ok_iff.mp h₃
    exact ⟨found, m, fs, hasked, hconclude, rfl⟩
  · rintro ⟨found, m, fs, hasked, hconclude, rfl⟩
    refine Scribe.tacit_bind_eq_ok_iff.mpr ⟨(), _, rfl, ?_⟩
    refine Scribe.bind_eq_ok_iff.mpr ⟨found, m, fs, _, hasked, ?_, rfl⟩
    refine Scribe.tacit_bind_eq_ok_iff.mpr ⟨m, m, rfl, ?_⟩
    exact Scribe.entering_eq_ok_iff.mpr ⟨hconclude, rfl⟩

theorem test_eq_ok_iff {id : Nat} {check : Check ε α} {finding : Check.Finding α}
    {j j' : Judging ε α} {es : List (Event ε α)} :
    Narrated.test p s k id check j = (es, .ok finding j') ↔
      check.test id p s k j = .ok finding j' ∧ es = [.checked id check (.ok finding)] :=
  Scribe.entering_eq_ok_iff

theorem askEach_cons_eq_ok_iff {c : Criterion ε α} {cs : List (Criterion ε α)}
    {j j' : Judging ε α} {bs : List Bool} {es : List (Event ε α)} :
    Narrated.askEach p s k (c :: cs) j = (es, .ok bs j') ↔
      ∃ b m rest fs gs, Narrated.ask p s k c j = (fs, .ok b m) ∧
        Narrated.askEach p s k cs m = (gs, .ok rest j') ∧ bs = b :: rest ∧ es = fs ++ gs := by
  rw [Narrated.askEach]
  constructor
  · intro h
    obtain ⟨b, m, fs, _, hb, h₁, rfl⟩ := Scribe.bind_eq_ok_iff.mp h
    obtain ⟨rest, n, gs, _, hrest, h₂, rfl⟩ := Scribe.bind_eq_ok_iff.mp h₁
    obtain ⟨rfl, rfl, rfl⟩ := Scribe.pure_eq_ok_iff.mp h₂
    exact ⟨b, m, rest, fs, gs, hb, hrest, rfl, by rw [List.append_nil]⟩
  · rintro ⟨b, m, rest, fs, gs, hb, hrest, rfl, rfl⟩
    refine Scribe.bind_eq_ok_iff.mpr ⟨b, m, fs, gs, hb, ?_, rfl⟩
    exact Scribe.bind_eq_ok_iff.mpr ⟨rest, j', gs, [], hrest, rfl, (List.append_nil gs).symm⟩

omit [Scalar α] in
theorem blames_gather {β : Type} (c : Criterion ε α) {asking : Narrated.Inquiry ε α β}
    (finding : Store (NodeMemory α) → β → Check.Finding α)
    (h : asking.Blames Event.Calm) :
    (Narrated.gather k c asking finding).Blames Event.Calm := by
  have renews : ∀ j e j', (modify (renewed k c) : Judge ε α Unit) j ≠ .error e j' := by
    intro j e j' hj
    cases hj
  refine .bind (.tacit renews) fun _ => .bind h fun found => .bind (.tacit nofun) fun j => ?_
  exact .entering fun _ _ _ ⟨_, hb⟩ => nomatch hb

theorem blames_test (id : Nat) (check : Check ε α) :
    (Narrated.test p s k id check).Blames Event.Calm := by
  refine .entering fun j e j' => ?_
  rintro ⟨f, hf⟩
  cases hf

theorem blames_askEach {cs : List (Criterion ε α)}
    (h : ∀ c ∈ cs, (Narrated.ask p s k c).Blames Event.Calm) :
    (Narrated.askEach p s k cs).Blames Event.Calm := by
  induction cs with
  | nil => exact .pure []
  | cons c cs ih =>
    have hcs := ih fun c hc => h c (List.mem_cons_of_mem _ hc)
    exact .bind (h c List.mem_cons_self) fun _ => .bind hcs fun _ => .pure _

theorem blames_ask (c : Criterion ε α) : (Narrated.ask p s k c).Blames Event.Calm := by
  induction c using induct with
  | node c ih =>
    cases c with
    | atom id check =>
      rw [Narrated.ask]
      exact blames_gather k _ _ (blames_test p s k id check)
    | all id members =>
      rw [Narrated.ask]
      exact blames_gather k _ _ (blames_askEach p s k ih)
    | any id members =>
      rw [Narrated.ask]
      exact blames_gather k _ _ (blames_askEach p s k ih)

/-- Whatever an event says that an atom found, the atom did find in some memory. -/
def Genuine : Event ε α → Prop
  | .checked id check finding => ∃ j, given (check.test id p s k j) = finding
  | .answered _ _ => True

theorem genuine_gather {β : Type} (c : Criterion ε α) {asking : Narrated.Inquiry ε α β}
    (finding : Store (NodeMemory α) → β → Check.Finding α)
    (h : asking.Leads (fun _ => True) (Genuine p s k) fun _ => True) :
    (Narrated.gather k c asking finding).Leads (fun _ => True) (Genuine p s k)
      fun _ => True := by
  refine .bind (.tacit fun _ _ _ _ _ => trivial) fun _ => .bind h fun found => ?_
  refine .bind (.tacit fun _ _ _ _ _ => trivial) fun j => ?_
  exact .entering (fun _ _ => trivial) fun _ _ _ _ _ => trivial

theorem genuine_askEach {cs : List (Criterion ε α)}
    (h : ∀ c ∈ cs, (Narrated.ask p s k c).Leads (fun _ => True) (Genuine p s k) fun _ => True) :
    (Narrated.askEach p s k cs).Leads (fun _ => True) (Genuine p s k) fun _ => True := by
  induction cs with
  | nil => exact .pure []
  | cons c cs ih =>
    have hcs := ih fun c hc => h c (List.mem_cons_of_mem _ hc)
    exact .bind (h c List.mem_cons_self) fun _ => .bind hcs fun _ => .pure _

theorem genuine_ask (c : Criterion ε α) :
    (Narrated.ask p s k c).Leads (fun _ => True) (Genuine p s k) fun _ => True := by
  induction c using induct with
  | node c ih =>
    cases c with
    | atom id check =>
      rw [Narrated.ask]
      refine genuine_gather p s k _ _ (.entering (fun j _ => ⟨j, rfl⟩) ?_)
      exact fun _ _ _ _ _ => trivial
    | all id members =>
      rw [Narrated.ask]
      exact genuine_gather p s k _ _ (genuine_askEach p s k ih)
    | any id members =>
      rw [Narrated.ask]
      exact genuine_gather p s k _ _ (genuine_askEach p s k ih)

end
end Criterion
end Geodescent
