import Geodescent.Problem
import Geodescent.Settings
import Geodescent.State
import Geodescent.Store

/-!
What observers of a run can change: the memory of their actions, the text they have written, and
through the cost the surroundings. They read the state of the run and never write it.
-/
namespace Geodescent

inductive Outlet where
  | standard
  | named (name : String)
deriving DecidableEq

abbrev Console := Chronicle (Outlet × String)

def Console.text (c : Console) (outlet : Outlet) : String :=
  "".intercalate ((c.toList.filter fun piece => piece.1 = outlet).map Prod.snd)

theorem intercalate_empty (texts : List String) : "".intercalate texts = String.join texts := by
  induction texts with
  | nil => rfl
  | cons text rest ih =>
    rcases rest with _ | ⟨next, others⟩
    · simp
    · have hsplit : "".intercalate ([text] ++ next :: others) =
          "".intercalate [text] ++ "" ++ "".intercalate (next :: others) :=
        String.intercalate_append_of_ne_nil (List.cons_ne_nil _ _) (List.cons_ne_nil _ _)
      rw [List.singleton_append] at hsplit
      rw [hsplit, ih, String.join_cons]
      simp

theorem Console.text_push (c : Console) (outlet outlet' : Outlet) (text : String) :
    Console.text (c.push (outlet, text)) outlet' =
      c.text outlet' ++ if outlet = outlet' then text else "" := by
  unfold Console.text
  rw [Chronicle.toList_push, intercalate_empty, intercalate_empty, List.filter_append,
    List.map_append, String.join_append]
  by_cases h : outlet = outlet'
  · simp [h]
  · simp [h]

def Console.outlets (c : Console) : List Outlet := (c.toList.map Prod.fst).eraseDups

/-- What an action remembers: the values it recorded and the point it saw last, nothing before it
has seen one. -/
structure ActionMemory (α : Type) where
  recorded : Chronicle (Datum α)
  previous : Point α

instance {α : Type} : Inhabited (ActionMemory α) := ⟨.empty, .none⟩

structure Observing (ε α : Type) where
  env : ε
  memory : Store (ActionMemory α)
  console : Console

abbrev Observe (ε α β : Type) := EStateM (Fault α) (Observing ε α) β

structure Moment (ε α : Type) where
  settings : Settings α
  problem : Problem ε α
  state : State α
  iteration : Int
  stopped : Bool

namespace Observing
variable {ε α : Type}

def surroundings (ε α : Type) : Part (Observing ε α) ε where
  get o := o.env
  set env o := { o with env := env }

def revise (id : Nat) (f : ActionMemory α → ActionMemory α) (o : Observing ε α) : Observing ε α :=
  { o with memory := o.memory.set id (f (o.memory.get id)) }

def remember (id : Nat) (x : Point α) : Observing ε α → Observing ε α :=
  revise id fun m => { m with previous := x }

def record (id : Nat) (d : Datum α) : Observing ε α → Observing ε α :=
  revise id fun m => { m with recorded := m.recorded.push d }

def erase (id : Nat) : Observing ε α → Observing ε α :=
  revise id fun m => { m with recorded := .empty }

def write (outlet : Outlet) (text : String) (o : Observing ε α) : Observing ε α :=
  { o with console := o.console.push (outlet, text) }

section Memory
variable (id i : Nat) (o : Observing ε α)

theorem memory_revise (f : ActionMemory α → ActionMemory α) :
    (o.revise id f).memory.get i = if id = i then f (o.memory.get id) else o.memory.get i :=
  Store.get_set _ _ _ _

theorem memory_remember (x : Point α) : (remember id x o).memory.get i =
    if id = i then { o.memory.get i with previous := x } else o.memory.get i := by
  unfold remember
  rw [memory_revise]
  split
  · subst id
    rfl
  · rfl

theorem memory_record (d : Datum α) : (record id d o).memory.get i =
    if id = i then { o.memory.get i with recorded := (o.memory.get i).recorded.push d }
    else o.memory.get i := by
  unfold record
  rw [memory_revise]
  split
  · subst id
    rfl
  · rfl

theorem memory_erase : (erase id o).memory.get i =
    if id = i then { o.memory.get i with recorded := .empty } else o.memory.get i := by
  unfold erase
  rw [memory_revise]
  split
  · subst id
    rfl
  · rfl

end Memory

def moved (t : Moment ε α) (previous : Point α) : Answer α α :=
  t.problem.manifold.dist previous t.state.x

def gradientNorm [Scalar α] (t : Moment ε α) : Answer α (Option α) :=
  match t.state.gradient with
  | .none => .ok none
  | g => (t.problem.manifold.norm t.state.x g).map some

def cost (t : Moment ε α) : Observe ε α α :=
  (surroundings ε α).run (t.problem.costAt t.state.x)

end Observing
end Geodescent
