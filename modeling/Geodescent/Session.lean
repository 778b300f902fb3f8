import Geodescent.Criterion.Ask
import Geodescent.Decorator
import Geodescent.Options

/-!
Everything a run can change, and the parts of it that its helpers see: criteria the memory of their
nodes, observers their memory and the console, solvers the position and the journal, and all of them
the surroundings.
-/
namespace Geodescent

structure Session (ε α : Type) where
  env : ε
  settings : Settings α
  state : State α
  nodes : Store (NodeMemory α)
  memory : Store (ActionMemory α)
  console : Console
  journal : Journal

abbrev Run (ε α β : Type) := EStateM (Fault α) (Session ε α) β

structure Stepping (ε α : Type) where
  env : ε
  journal : Journal
  position : Position α

abbrev Stepwise (ε α β : Type) := EStateM (Fault α) (Stepping ε α) β

namespace Stepping
variable {ε α : Type}

def surroundings (ε α : Type) : Part (Stepping ε α) ε where
  get s := s.env
  set env s := { s with env := env }

def workshop (ε α : Type) : Part (Stepping ε α) (Workshop ε) where
  get s := ⟨s.env, s.journal⟩
  set w s := { s with env := w.env, journal := w.journal }

def place (f : Position α → Position α) (s : Stepping ε α) : Stepping ε α :=
  { s with position := f s.position }

end Stepping

namespace Session
variable {ε α : Type}

def start (env : ε) (settings : Settings α) (state : State α) : Session ε α :=
  ⟨env, settings, state, .empty, .empty, .empty, .empty⟩

def surroundings (ε α : Type) : Part (Session ε α) ε where
  get s := s.env
  set env s := { s with env := env }

def judging (ε α : Type) : Part (Session ε α) (Judging ε α) where
  get s := ⟨s.env, s.nodes⟩
  set j s := { s with env := j.env, nodes := j.nodes }

def observing (ε α : Type) : Part (Session ε α) (Observing ε α) where
  get s := ⟨s.env, s.memory, s.console⟩
  set o s := { s with env := o.env, memory := o.memory, console := o.console }

def stepping (ε α : Type) : Part (Session ε α) (Stepping ε α) where
  get s := ⟨s.env, s.journal, s.state.position⟩
  set t s :=
    { s with env := t.env, journal := t.journal, state := { s.state with position := t.position } }

def workshop (ε α : Type) : Part (Session ε α) (Workshop ε) where
  get s := ⟨s.env, s.journal⟩
  set w s := { s with env := w.env, journal := w.journal }

def advance (f : State α → State α) (s : Session ε α) : Session ε α := { s with state := f s.state }

def note (entry : JournalEntry) (s : Session ε α) : Session ε α :=
  { s with journal := s.journal.push entry }

def moment (p : Problem ε α) (iteration : Int) (stopped : Bool) (s : Session ε α) : Moment ε α :=
  ⟨s.settings, p, s.state, iteration, stopped⟩

end Session
end Geodescent
