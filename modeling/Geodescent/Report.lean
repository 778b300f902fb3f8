import Geodescent.Fault

/-!
What a caller sees of a fault: its kind, its wording and the details it carries. Kinds form a
hierarchy, and each kind has its own named details.
-/
namespace Geodescent

inductive Report.Kind where
  | general
  | configuration
  | stepsize
  | search
  | manifold
  | point
  | unsupplied
  | value
  | type
  | oracle
  | field
  | overflow
  | division
  | index
  | key
  | immutable
  | unfinished
deriving DecidableEq, Repr

namespace Report.Kind

def own : List Kind := [.general, .configuration, .stepsize, .search, .manifold, .point]

def parent? : Kind → Option Kind
  | .configuration | .stepsize | .manifold => some .general
  | .search => some .stepsize
  | .point => some .manifold
  | _ => none

def ancestry (k : Kind) : List Kind :=
  match k with
  | .search => [.search, .stepsize, .general]
  | .point => [.point, .manifold, .general]
  | .configuration => [.configuration, .general]
  | .stepsize => [.stepsize, .general]
  | .manifold => [.manifold, .general]
  | .general => [.general]
  | k => [k]

theorem mem_ancestry (k : Kind) : k ∈ k.ancestry := by cases k <;> decide

theorem ancestry_parent {k p : Kind} (h : k.parent? = some p) : k.ancestry = k :: p.ancestry := by
  cases k <;> cases p <;> simp_all [parent?, ancestry]

def details : Kind → List String
  | .configuration => ["parameter_name", "received_value"]
  | .stepsize => ["stepsize", "iteration"]
  | .search => ["stepsize", "iteration", "iterate", "backtracks"]
  | .point => ["point", "constraint_value"]
  | _ => []

end Report.Kind

structure Report (α : Type) where
  kind : Report.Kind
  message : Option String
  details : List (String × Datum α)

namespace Refusal

def kind : Refusal → Report.Kind
  | .wrongType => .type
  | .wrongValue => .value
  | .tooLarge => .overflow
  | .divisionByZero => .division
  | .outOfBounds => .index
  | .noSuchField => .field
  | .noSuchKey => .key
  | .immutable => .immutable

end Refusal

namespace Fault
variable {α : Type}

def kind : Fault α → Report.Kind
  | .misuse _ => .configuration
  | .unusableStep .. => .stepsize
  | .exhausted .. => .search
  | .invalidPoint .. => .point
  | .missing _ => .unsupplied
  | .dimensionNotPositive .. => .value
  | .dimensionNotWhole .. => .type
  | .noData => .value
  | .noSamples _ => .value
  | .oracle _ => .oracle
  | .undecorated => .field
  | .refused cause => cause.kind
  | .unfinished => .unfinished

variable [Scalar α]

def report (f : Fault α) : Report α where
  kind := f.kind
  message := f.message?
  details :=
    match f with
    | .misuse cause =>
      [("parameter_name", .text cause.parameter), ("received_value", cause.received)]
    | .unusableStep step iteration => [("stepsize", .real step), ("iteration", .whole iteration)]
    | .exhausted step iteration iterate budget =>
      [("stepsize", .real step), ("iteration", iteration), ("iterate", iterate),
        ("backtracks", budget)]
    | .invalidPoint _ _ point => [("point", point), ("constraint_value", .none)]
    | _ => []

theorem details_report (f : Fault α) : (f.report.details).map Prod.fst = f.report.kind.details := by
  cases f with
  | refused cause => cases cause <;> rfl
  | _ => rfl

end Fault

namespace Report
variable {α : Type} [Scalar α]

/-- Give values to names: positional ones first, then by name, each name at most once. -/
def assign {β : Type} (names : List String) (positional : List β) (named : List (String × β)) :
    Except (Fault α) (List (String × β)) :=
  let first := names.zip positional
  if names.length < positional.length then .error (.refused .wrongType)
  else if named.any fun (name, _) => !names.contains name || (first.lookup name).isSome then
    .error (.refused .wrongType)
  else .ok (first ++ named)

/-- A report of one of the library's own kinds, made from its message and details. Kinds without
details take any number of positional values. -/
def make (kind : Kind) (positional : List (Datum α)) (named : List (String × Datum α)) :
    Except (Fault α) (Report α) :=
  if kind.details.isEmpty then
    if named.isEmpty then
      let message :=
        match positional with
        | [] => ""
        | [d] => d.plain
        | ds => "(" ++ ", ".intercalate (ds.map Datum.written) ++ ")"
      .ok ⟨kind, some message, []⟩
    else .error (.refused .wrongType)
  else
    match assign ("message" :: kind.details) positional named with
    | .error e => .error e
    | .ok given =>
      match given.lookup "message" with
      | none => .error (.refused .wrongType)
      | some message =>
        .ok ⟨kind, some message.plain,
          kind.details.map fun name => (name, (given.lookup name).getD .none)⟩

end Report
end Geodescent
