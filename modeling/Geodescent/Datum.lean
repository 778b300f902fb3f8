import Geodescent.Text.Quoted
import Geodescent.Token
import Geodescent.Vec.Text

/-!
Values that are handed in from outside and reported back: parameters before they are checked, points
and tangent vectors, what records capture, what errors carry. `Datum.written` is the text that shows
quotes, `Datum.plain` the one that does not. `Datum.holds` says whether a value counts as yes,
`Datum.compared` what it is in a comparison.
-/
namespace Geodescent

inductive Datum (α : Type) where
  | none
  | truth (b : Bool)
  | whole (n : Int)
  | real (x : α)
  | text (s : String)
  | list (items : List (Datum α))
  | token (t : Token)
  | array (v : Vec α)
  | stream (name : String)
  | table (keys : List String) (values : List (Datum α))
  | thing (kind : String) (shown : String)

instance {α : Type} : Inhabited (Datum α) := ⟨.none⟩

instance {α : Type} [DecidableEq α] (d : Datum α) (c : α) : Decidable (d = .real c) :=
  match d with
  | .real b => decidable_of_iff (b = c) ⟨congrArg _, fun h => by cases h; rfl⟩
  | .none | .truth _ | .whole _ | .array _ | .text _ | .list _ | .token _ | .stream _ | .table ..
  | .thing .. => .isFalse nofun

instance {α : Type} (d : Datum α) (n : Int) : Decidable (d = .whole n) :=
  match d with
  | .whole m => decidable_of_iff (m = n) ⟨congrArg _, fun h => by cases h; rfl⟩
  | .none | .truth _ | .real _ | .array _ | .text _ | .list _ | .token _ | .stream _ | .table ..
  | .thing .. => .isFalse nofun

instance {α : Type} [DecidableEq α] (d : Datum α) (v : Vec α) : Decidable (d = .array v) :=
  match d with
  | .array u => decidable_of_iff (u = v) ⟨congrArg _, fun h => by cases h; rfl⟩
  | .none | .truth _ | .whole _ | .real _ | .text _ | .list _ | .token _ | .stream _ | .table ..
  | .thing .. => .isFalse nofun

namespace Datum
variable {α : Type} [Scalar α]

def kind : Datum α → String
  | .none => "NoneType"
  | .truth _ => "bool"
  | .whole _ => "int"
  | .real _ => "float"
  | .text _ => "str"
  | .list _ => "list"
  | .token _ => "Token"
  | .array _ => "ArrayImpl"
  | .stream _ => "StringIO"
  | .table .. => "dict"
  | .thing kind _ => kind

def qualifiedKind : Datum α → String
  | .token _ => "manoptax.plans.actions.Token"
  | .array _ => "jaxlib._jax.ArrayImpl"
  | .stream _ => "_io.StringIO"
  | .thing kind _ => "__main__." ++ kind
  | d => d.kind

def entries : List String → List String → List String
  | key :: keys, value :: values => (Text.quoted key ++ ": " ++ value) :: entries keys values
  | _, _ => []

def braced (parts : List String) : String := "\x7b" ++ ", ".intercalate parts ++ "\x7d"

mutual
def written : Datum α → String
  | .none => "None"
  | .truth b => Text.truthWord b
  | .whole n => toString n
  | .real x => Scalar.standard x
  | .text s => Text.quoted s
  | .list items => "[" ++ ", ".intercalate (writtenEach items) ++ "]"
  | .token t => "<Token." ++ t.label ++ ": " ++ Text.quoted t.text ++ ">"
  | .array v => v.written
  | .stream name => name
  | .table keys values => braced (entries keys (writtenEach values))
  | .thing _ shown => shown

def writtenEach : List (Datum α) → List String
  | [] => []
  | d :: ds => written d :: writtenEach ds
end

def plain : Datum α → String
  | .text s => s
  | .token t => "Token." ++ t.label
  | .array v => v.plain
  | d => d.written

def number? : Datum α → Option (Number α)
  | .truth b => some (.whole b.toInt)
  | .whole n => some (.whole n)
  | .real x => some (.real x)
  | _ => Option.none

def ofNumber : Number α → Datum α
  | .whole n => .whole n
  | .real x => .real x

/-- The number that a value is in a comparison; an array is one if it has a single entry. -/
def compared : Datum α → Except Refusal (Number α)
  | .array v =>
    match v.entry? with
    | some n => .ok n
    | Option.none => .error .wrongValue
  | d =>
    match d.number? with
    | some n => .ok n
    | Option.none => .error .wrongType

@[simp] theorem compared_whole {β : Type} (n : Int) :
    (Datum.whole n : Datum β).compared = .ok (.whole n) := rfl

/-- Whether a value counts as yes: anything but nothing, zero and the empty. An array counts as its
only entry. -/
def holds : Datum α → Except Refusal Bool
  | .none => .ok false
  | .truth b => .ok b
  | .whole n => .ok (n != 0)
  | .real x => .ok (!Scalar.eq x 0)
  | .text s => .ok (!s.isEmpty)
  | .list items => .ok (!items.isEmpty)
  | .token _ => .ok true
  | .array v =>
    match v.entry? with
    | some n => .ok (!n.eq (.whole 0))
    | Option.none => .error .wrongValue
  | .stream _ => .ok true
  | .table keys _ => .ok (!keys.isEmpty)
  | .thing .. => .ok true

/-- Whether a value is a given whole number; only an array of several entries leaves that open. -/
def equals (k : Int) (d : Datum α) : Except Refusal Bool :=
  match d.compared with
  | .ok n => .ok (n.eq (.whole k))
  | .error .wrongValue => .error .wrongValue
  | .error _ => .ok false

def toReal : Datum α → Except Refusal α
  | .text s =>
    match Numeral.read? s.toList with
    | some numeral => .ok (Scalar.ofNumeral numeral)
    | Option.none => .error .wrongValue
  | .array v =>
    match v.shape, v.entry? with
    | [], some n => n.toReal
    | _, _ => .error .wrongType
  | d =>
    match d.number? with
    | some n => n.toReal
    | Option.none => .error .wrongType

@[simp] theorem toReal_real (x : α) : (Datum.real x).toReal = .ok x := rfl

def brief : Datum α → Except Refusal String
  | .text _ | .token _ => .error .wrongValue
  | d => d.toReal.map Scalar.brief

end Datum
end Geodescent
