import Geodescent.Datum

/-!
Arithmetic on values, as points and tangent vectors need it. Arrays are combined entry by entry and
with numbers; numbers stay numbers among themselves; lists and texts can be put behind each other
and repeated. Every other combination is refused. Functions on arrays, such as `dot` and `norm`,
look through all arguments first and refuse the first thing in them that no array can hold.
-/
namespace Geodescent

/-- Points and tangent vectors: arrays as a rule, but a manifold may be given any value. -/
abbrev Point (α : Type) := Datum α

namespace Datum
variable {α : Type} [Scalar α]

def isNumeric : Datum α → Bool
  | .truth _ | .whole _ | .real _ | .array _ => true
  | _ => false

def operand : Datum α → Except Refusal (Vec α)
  | .array v => .ok v
  | .truth b => .ok ⟨[], .truth [b]⟩
  | .whole n => if fitsEntry n then .ok ⟨[], .whole [n]⟩ else .error .tooLarge
  | .real x => .ok (.ofReal (Scalar.flush x))
  | _ => .error .wrongType

def operands (a b : Datum α) : Except Refusal (Vec α × Vec α) :=
  if a.isNumeric && b.isNumeric then do
    let u ← a.operand
    let v ← b.operand
    .ok (u, v)
  else .error .wrongType

mutual
/-- Why the first thing in a value that no array can hold is refused. Nothing at all is no such
thing, and lists and tables are looked through. -/
def unfit? : Datum α → Option Refusal
  | .whole n => if fitsEntry n then Option.none else some .tooLarge
  | .text _ | .token _ | .stream _ | .thing .. => some .wrongType
  | .list items => firstUnfit? items
  | .table _ values => firstUnfit? values
  | .none | .truth _ | .real _ | .array _ => Option.none

def firstUnfit? : List (Datum α) → Option Refusal
  | [] => Option.none
  | d :: ds =>
    match unfit? d with
    | some e => some e
    | Option.none => firstUnfit? ds
end

def argument (a : Datum α) : Except Refusal (Vec α) :=
  match a.unfit? with
  | some e => .error e
  | Option.none => a.operand

def arguments (a b : Datum α) : Except Refusal (Vec α × Vec α) :=
  match firstUnfit? [a, b] with
  | some e => .error e
  | Option.none => a.operands b

def onArrays (p : Pairing α) (a b : Datum α) : Except Refusal (Datum α) := do
  let (u, v) ← a.operands b
  if Vec.takes p u v then .ok (.array (Vec.zip p u v)) else .error .wrongType

def combine (onNumbers : Number α → Number α → Except Refusal (Number α)) (p : Pairing α)
    (a b : Datum α) : Except Refusal (Datum α) :=
  match a.number?, b.number? with
  | some n, some m => (onNumbers n m).map ofNumber
  | _, _ => onArrays p a b

theorem combine_array (onNumbers : Number α → Number α → Except Refusal (Number α))
    (p : Pairing α) {u v : Vec α} (h : Vec.takes p u v = true) :
    combine onNumbers p (.array u) (.array v) = .ok (.array (Vec.zip p u v)) := by
  change (if Vec.takes p u v then _ else _) = _
  rw [if_pos h]

def add : Datum α → Datum α → Except Refusal (Datum α)
  | .list xs, .list ys => .ok (.list (xs ++ ys))
  | .text s, .text t => .ok (.text (s ++ t))
  | a, b => combine Number.add .add a b

def sub (a b : Datum α) : Except Refusal (Datum α) := combine Number.sub .sub a b

def repeated {β : Type} (count : Datum α) (items : List β) : Except Refusal (List β) :=
  match count.number? with
  | some (.whole n) => .ok (List.replicate n.toNat items).flatten
  | _ => .error .wrongType

def mul : Datum α → Datum α → Except Refusal (Datum α)
  | .list xs, b => (repeated b xs).map .list
  | a, .list ys => (repeated a ys).map .list
  | .text s, b => (repeated b s.toList).map fun cs => .text (String.ofList cs)
  | a, .text t => (repeated a t.toList).map fun cs => .text (String.ofList cs)
  | a, b => combine Number.mul .mul a b

def div (a b : Datum α) : Except Refusal (Datum α) :=
  match a.number?, b.number? with
  | some n, some m => (n.div m).map ofNumber
  | _, _ => do
    let (u, v) ← a.operands b
    if u.meets v then .ok (.array (u.zipReals Scalar.quotient v)) else .error .wrongType

def neg : Datum α → Except Refusal (Datum α)
  | .array v =>
    if v.entries.truths?.isSome then .error .wrongType else .ok (.array (-v))
  | d =>
    match d.number? with
    | some n => .ok (ofNumber n.neg)
    | Option.none => .error .wrongType

def square (a : Datum α) : Except Refusal (Datum α) :=
  match a.number? with
  | some n => n.square.map ofNumber
  | Option.none => onArrays .mul a a

def sum (a : Datum α) : Except Refusal (Number α) := a.argument.map Vec.sum

def dot (a b : Datum α) : Except Refusal (Datum α) := do
  let (u, v) ← a.arguments b
  if u.dots v then .ok (.array (u.dot v)) else .error .wrongType

def norm (a : Datum α) : Except Refusal α := a.argument.map Vec.norm

/-- Zeros of the same shape and kind, however large a whole number is. -/
def zeros : Datum α → Except Refusal (Datum α)
  | .whole _ => .ok (.array ⟨[], .whole [0]⟩)
  | a => a.operand.map fun v => .array v.zeros

def single (x : α) : Datum α := .array (.ofReal x)

def line (xs : List α) : Datum α := .array (.ofReals xs)

theorem norm_line (xs : List α) : (line xs).norm = .ok (Scalar.norm xs) := rfl

end Datum
end Geodescent
