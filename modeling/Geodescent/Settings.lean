import Geodescent.Chronicle
import Geodescent.Defaults
import Geodescent.Fault
import Geodescent.Part

/-!
Settings that hold for every run, and the journal in which runs note what they do. Values are stored
as they are given; a change that names a reserved or unknown setting is refused as a whole.
-/
namespace Geodescent

inductive Source where
  | settings
  | stepsize
  | run
  | sweep
deriving DecidableEq, Repr

inductive Level where
  | detail
  | notice
deriving DecidableEq, Repr

structure JournalEntry where
  source : Source
  level : Level
  message : String
deriving DecidableEq

abbrev Journal := Chronicle JournalEntry

structure Settings (α : Type) where
  budget : Datum α
  stream : Datum α
  tolerance : Datum α
  validate : Datum α

namespace Settings
variable {α : Type}

def standard [Scalar α] : Settings α :=
  { budget := .whole Defaults.armijoBacktracks
    stream := .none
    tolerance := .real Defaults.validationTolerance
    validate := .truth true }

def get? (s : Settings α) : String → Option (Datum α)
  | "armijo_max_backtracks" => some s.budget
  | "debug_stream" => some s.stream
  | "point_atol" => some s.tolerance
  | "validate_points" => some s.validate
  | _ => none

def get (s : Settings α) (name : String) : Except (Fault α) (Datum α) :=
  match s.get? name with
  | some value => .ok value
  | none => .error (.refused .noSuchKey)

def put (s : Settings α) (name : String) (value : Datum α) : Settings α :=
  match name with
  | "armijo_max_backtracks" => { s with budget := value }
  | "debug_stream" => { s with stream := value }
  | "point_atol" => { s with tolerance := value }
  | "validate_points" => { s with validate := value }
  | _ => s

def unknown (changes : List (String × Datum α)) : List String :=
  ((changes.map Prod.fst).filter fun name => !settingNames.contains name).eraseDups.mergeSort
    fun a b => a ≤ b

def toList (s : Settings α) : List (String × Datum α) :=
  settingNames.filterMap fun name => (s.get? name).map (name, ·)

/-- The name under which the settings themselves are handed over. -/
def reservedName : String := "cls"

def configure [Scalar α] (s : Settings α) (changes : List (String × Datum α)) :
    Except (Fault α) (Settings α × JournalEntry) :=
  match (changes.map Prod.fst).contains reservedName, unknown changes with
  | true, _ => .error (.refused .wrongType)
  | false, key :: others =>
    .error (.misuse (.unknownSettings key others ((changes.lookup key).getD .none)))
  | false, [] =>
    let shown := (Datum.table (changes.map Prod.fst) (changes.map Prod.snd)).written
    .ok (changes.foldl (fun s change => s.put change.1 change.2) s,
      ⟨.settings, .detail, "Updating solver configuration: " ++ shown⟩)

end Settings
end Geodescent
