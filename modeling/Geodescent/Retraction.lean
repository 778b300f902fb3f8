import Geodescent.Oracle

/-!
The choice of the map that carries a point along a tangent vector: the exponential map or the
manifold's own retraction by name, or a map of one's own.
-/
namespace Geodescent

inductive RetractionChoice (ε α : Type) where
  | given (d : Datum α)
  | custom (shown : String) (map : Retraction ε α)

namespace RetractionChoice
variable {ε α : Type}

def named? : String → Option (Retraction ε α)
  | "exp" => some fun M x v => settled (M.exp x v)
  | "retr" => some fun M x v => settled (M.retract x v)
  | _ => none

def resolve : RetractionChoice ε α → Answer α (Retraction ε α)
  | .custom _ map => .ok map
  | .given (.text name) =>
    match named? name with
    | some map => .ok map
    | none => .error (.misuse (.unknownRetraction name))
  | .given d => .error (.misuse (.badRetraction d))

def written [Scalar α] : RetractionChoice ε α → String
  | .custom shown _ => shown
  | .given d => d.written

def standard : RetractionChoice ε α := .given (.text "exp")

theorem resolve_standard :
    (standard : RetractionChoice ε α).resolve = .ok fun M x v => settled (M.exp x v) := rfl

end RetractionChoice
end Geodescent
