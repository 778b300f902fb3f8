import Geodescent.Proofs.Criterion.Inquiry
import Geodescent.Proofs.Twin

/-! Two calls of one tree side by side, in memories that may differ. A relation that every node keeps
up by itself, when it renews, checks and concludes, is kept up by the whole call: `Lockstep.ask`. -/
namespace Geodescent

theorem Parallel.given_eq {σ φ β : Type} {S E : σ → σ → Prop} {r r' : EStateM.Result φ σ β}
    (h : Parallel S E r r') : given r' = given r := by
  cases h with
  | ok b _ => rfl
  | error e _ => rfl

namespace Criterion
variable {ε α : Type} [Scalar α]

/-- What a node may come to, as the memory of its members has it: an atom what its check found, a
combination what the answers of its members make. -/
def Finds : Criterion ε α → (Store (NodeMemory α) → Check.Finding α) → Prop
  | .atom _ _, find => ∃ finding, find = fun _ => finding
  | .all _ members, find => ∃ answers, find = fun nodes => allFinding members nodes answers
  | .any _ members, find => ∃ answers, find = fun nodes => anyFinding members nodes answers

/-- Every node of a tree keeps up `R` between two memories, with events that `Q` relates. -/
structure Lockstep (p : Problem ε α) (s : State α) (k : Int)
    (R : Judging ε α → Judging ε α → Prop) (Q : Event ε α → Event ε α → Prop)
    (c : Criterion ε α) : Prop where
  renewed : ∀ d ∈ c.nodes, ∀ j j', R j j' → R (renewed k d j) (renewed k d j')
  tested : ∀ x ∈ c.atoms,
    Scribe.Twin R R R Q (Narrated.test p s k x.1 x.2) (Narrated.test p s k x.1 x.2)
  concluded : ∀ d ∈ c.nodes, ∀ find, d.Finds find → ∀ j j', R j j' →
    Parallel R R (conclude d.id k (find j.nodes) j) (conclude d.id k (find j'.nodes) j')
  answered : ∀ d ∈ c.nodes, ∀ answer, Q (.answered d.id answer) (.answered d.id answer)

namespace Lockstep
variable {p : Problem ε α} {s : State α} {k : Int} {R : Judging ε α → Judging ε α → Prop}
  {Q : Event ε α → Event ε α → Prop} {c d : Criterion ε α}

theorem node (h : Lockstep p s k R Q c) (hd : d ∈ c.nodes) : Lockstep p s k R Q d where
  renewed e he := h.renewed e (nodes_subset hd he)
  tested x hx := h.tested x (atoms_subset hd hx)
  concluded e he := h.concluded e (nodes_subset hd he)
  answered e he := h.answered e (nodes_subset hd he)

theorem gather {β : Type} {R₀ : Judging ε α → Judging ε α → Prop}
    {asking : Narrated.Inquiry ε α β} {finding : Store (NodeMemory α) → β → Check.Finding α}
    (h : Lockstep p s k R Q c)
    (opening : ∀ j j', R₀ j j' → R (Criterion.renewed k c j) (Criterion.renewed k c j'))
    (hasking : Scribe.Twin R R R Q asking asking)
    (finds : ∀ found, c.Finds fun nodes => finding nodes found) :
    Scribe.Twin R₀ R R Q (Narrated.gather k c asking finding)
      (Narrated.gather k c asking finding) := by
  have hself := mem_nodes_self c
  refine .bind (.tacit (.modify opening)) fun _ => .bind hasking fun found => ?_
  intro j j' hj
  have hconclude := h.concluded c hself _ (finds found) j j' hj
  have hentry : Q (.answered c.id (given (conclude c.id k (finding j.nodes found) j)))
      (.answered c.id (given (conclude c.id k (finding j'.nodes found) j'))) := by
    rw [hconclude.given_eq]
    exact h.answered c hself _
  exact ⟨.cons hentry .nil, hconclude⟩

theorem askEach {cs : List (Criterion ε α)} (h : ∀ c ∈ cs,
    Scribe.Twin R R R Q (Narrated.ask p s k c) (Narrated.ask p s k c)) :
    Scribe.Twin R R R Q (Narrated.askEach p s k cs) (Narrated.askEach p s k cs) := by
  induction cs with
  | nil => exact .pure []
  | cons c cs ih =>
    have hcs := ih fun e he => h e (List.mem_cons_of_mem c he)
    exact .bind (h c List.mem_cons_self) fun _ => .bind hcs fun _ => .pure _

theorem ask (h : Lockstep p s k R Q c) {R₀ : Judging ε α → Judging ε α → Prop}
    (opening : ∀ j j', R₀ j j' → R (Criterion.renewed k c j) (Criterion.renewed k c j')) :
    Scribe.Twin R₀ R R Q (Narrated.ask p s k c) (Narrated.ask p s k c) := by
  induction c using induct generalizing R₀ with
  | node c ih =>
    have members : ∀ e ∈ c.children,
        Scribe.Twin R R R Q (Narrated.ask p s k e) (Narrated.ask p s k e) := fun e he =>
      have hnode := h.node (mem_nodes_child he)
      ih e he hnode (hnode.renewed e (mem_nodes_self e))
    cases c with
    | atom id check =>
      rw [Narrated.ask]
      exact h.gather opening (h.tested (id, check) (List.mem_singleton_self _)) fun found =>
        ⟨found, rfl⟩
    | all id cs =>
      rw [Narrated.ask]
      exact h.gather opening (askEach members) fun found => ⟨found, rfl⟩
    | any id cs =>
      rw [Narrated.ask]
      exact h.gather opening (askEach members) fun found => ⟨found, rfl⟩

end Lockstep
end Criterion
end Geodescent
