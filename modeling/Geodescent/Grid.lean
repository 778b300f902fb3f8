import Geodescent.Datum

/-!
Values as grids. Nested lists of equal lengths become a grid of cells, and arrays inside them become
their entries. A grid of numbers is an array: one scalar makes all entries scalars, otherwise one
whole number makes all of them whole. Any grid can be shown, in the one form that suits all of its
cells.
-/
namespace Geodescent

/-- The cells of nested lists as they were written, row after row. -/
structure Grid (α : Type) where
  shape : List Nat
  cells : List (Datum α)

namespace Grid
variable {α : Type}

def axisLimit : Nat := 64

def stack? : List (Grid α) → Option (Grid α)
  | [] => some ⟨[0], []⟩
  | row :: rows =>
    if row.shape.length < axisLimit && rows.all fun r => r.shape == row.shape then
      some ⟨(rows.length + 1) :: row.shape, row.cells ++ rows.flatMap Grid.cells⟩
    else none

def isReal : Datum α → Bool
  | .real _ => true
  | _ => false

def isTruth : Datum α → Bool
  | .truth _ => true
  | _ => false

def isText : Datum α → Bool
  | .text _ => true
  | _ => false

def truth : Datum α → Bool
  | .truth b => b
  | _ => false

def whole : Datum α → Int
  | .truth b => b.toInt
  | .whole n => n
  | _ => 0

def toVec [Scalar α] (g : Grid α) : Except Refusal (Vec α) :=
  if g.cells.isEmpty || g.cells.any isReal then
    (g.cells.mapM Datum.toReal).map fun xs => ⟨g.shape, .real xs⟩
  else if g.cells.all isTruth then .ok ⟨g.shape, .truth (g.cells.map truth)⟩
  else
    let ns := g.cells.map whole
    if ns.all fitsEntry then .ok ⟨g.shape, .whole ns⟩ else .error .tooLarge

inductive Form where
  | things
  | texts
  | reals
  | truths
  | wholes
deriving DecidableEq, Repr

def isWide : Datum α → Bool
  | .whole n => 9223372036854775808 ≤ n
  | _ => false

def isThing : Datum α → Bool
  | .truth _ | .real _ | .text _ => false
  | .whole n => !(-9223372036854775808 ≤ n && n < 18446744073709551616)
  | _ => true

/-- Cells that are neither texts nor numbers make all of them things, texts come next and scalars
after them; so do wide whole numbers beside narrow ones. -/
def form (cells : List (Datum α)) : Form :=
  if cells.any isThing then .things
  else if cells.any isText then .texts
  else if cells.any isReal then .reals
  else if cells.all isTruth then .truths
  else if cells.any isWide && cells.any fun d => !isWide d && !isTruth d then .reals
  else .wholes

variable [Scalar α]

def cellText (d : Datum α) : String :=
  String.ofList (d.plain.toList.reverse.dropWhile fun c => c.toNat == 0).reverse

def cellReal (d : Datum α) : α :=
  match d.toReal with
  | .ok x => x
  | .error _ => Scalar.nan

def words (places : Nat) (g : Grid α) : List String :=
  let shown := Text.excerpt g.shape g.cells
  match form g.cells with
  | .things => shown.map Datum.written
  | .texts => shown.map fun d => Text.quoted (cellText d)
  | .reals => (Entries.real (g.cells.map cellReal)).words places g.shape
  | .truths => (Entries.truth (g.cells.map truth) : Entries α).words places g.shape
  | .wholes => (Entries.whole (g.cells.map whole) : Entries α).words places g.shape

def text (layout : Text.Layout) (places : Nat) (g : Grid α) : String :=
  Text.arranged layout g.shape (g.words places)

end Grid

namespace Datum
variable {α : Type}

mutual
def grid? : Datum α → Option (Grid α)
  | .list items =>
    match gridEach? items with
    | some rows => Grid.stack? rows
    | Option.none => Option.none
  | .array ⟨shape, .real xs⟩ => some ⟨shape, xs.map .real⟩
  | .array ⟨shape, .whole ns⟩ => some ⟨shape, ns.map .whole⟩
  | .array ⟨shape, .truth bs⟩ => some ⟨shape, bs.map .truth⟩
  | d => some ⟨[], [d]⟩

def gridEach? : List (Datum α) → Option (List (Grid α))
  | [] => some []
  | d :: ds =>
    match grid? d, gridEach? ds with
    | some g, some gs => some (g :: gs)
    | _, _ => Option.none
end

mutual
def hasNothing : Datum α → Bool
  | .none => true
  | .list items => anyHasNothing items
  | .table _ values => anyHasNothing values
  | _ => false

def anyHasNothing : List (Datum α) → Bool
  | [] => false
  | d :: ds => hasNothing d || anyHasNothing ds
end

mutual
def allNumbers : Datum α → Bool
  | .truth _ | .whole _ | .real _ | .array _ => true
  | .list items => eachAllNumbers items
  | _ => false

def eachAllNumbers : List (Datum α) → Bool
  | [] => true
  | d :: ds => allNumbers d && eachAllNumbers ds
end

mutual
def hasArray : Datum α → Bool
  | .array _ => true
  | .list items => anyHasArray items
  | _ => false

def anyHasArray : List (Datum α) → Bool
  | [] => false
  | d :: ds => hasArray d || anyHasArray ds
end

def unsuitable? [Scalar α] (d : Datum α) : Option Refusal :=
  match d.grid? with
  | Option.none => some .wrongValue
  | some g =>
    match g.cells.mapM toReal with
    | .ok _ => Option.none
    | .error e => some e

mutual
/-- Why a value does not become an array. A list with an array in it is put together from its parts,
so the first unsuitable part counts before the shape of the whole. -/
def obstacle? [Scalar α] : Datum α → Option Refusal
  | .list items =>
    match (if anyHasArray items then firstObstacle? items else Option.none) with
    | some e => some e
    | Option.none => unsuitable? (.list items)
  | d => unsuitable? d

def firstObstacle? [Scalar α] : List (Datum α) → Option Refusal
  | [] => Option.none
  | d :: ds =>
    match obstacle? d with
    | some e => some e
    | Option.none => firstObstacle? ds
end

def toVec [Scalar α] : Datum α → Except Refusal (Vec α)
  | .array v => .ok v
  | d =>
    if d.hasNothing then .error .wrongValue
    else if !d.allNumbers then .error .wrongType
    else
      match d.obstacle?, d.grid? with
      | some e, _ => .error e
      | _, some g => g.toVec
      | _, _ => .error .wrongValue

def aligned [Scalar α] (places : Nat) (d : Datum α) : Except Refusal String :=
  match d.grid? with
  | some g => .ok (g.text .standard places)
  | Option.none => .error .wrongValue

end Datum
end Geodescent
