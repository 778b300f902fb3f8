import Geodescent.Datum.Arithmetic
import Geodescent.Text.Json

/-!
Values in JSON. Every value keeps its kind: scalars are texts under `f`, arrays lists of such texts
under `v`, tokens and streams go by their names. Scalars in answers are exact or rounded to ten
places, from one on to ten significant figures.
-/
namespace Geodescent.Exchange
variable {α : Type} [Scalar α]

def scalarOfText (text : String) : α :=
  match Numeral.read? text.toList with
  | some numeral => Scalar.ofNumeral numeral
  | none => 0

def readScalar (j : Json) : α :=
  match j.int?, j with
  | some n, _ => Scalar.ofInt n
  | none, .number figures => scalarOfText figures
  | none, j => scalarOfText j.string

/-- A line of scalars, written out, as copies of one value, or as equal steps from a start. -/
def readVec (j : Json) : Vec α :=
  match j, j.get "rep", j.get "range" with
  | .array items, _, _ => Vec.ofReals (items.map readScalar)
  | _, .array [value, n], _ => Vec.ofReals (List.replicate n.int.toNat (readScalar value))
  | _, _, .array [start, step, n] =>
    Vec.ofReals ((List.range n.int.toNat).map fun i =>
      readScalar start + readScalar step * Scalar.ofInt (Int.ofNat i))
  | _, _, _ => Vec.ofReals []

def readGrid (j : Json) : Vec α :=
  match j with
  | .array (.array row :: rows) =>
    ⟨[rows.length + 1, row.length], .real ((row ++ rows.flatMap Json.items).map readScalar)⟩
  | j => readVec j

mutual
def readDatum : Json → Datum α
  | .null => .none
  | .truth b => .truth b
  | .text s => .text s
  | .number figures =>
    match (Json.number figures).int? with
    | some n => .whole n
    | none => .real (scalarOfText figures)
  | .array items => .list (readEach items)
  | .object fields => readKind fields

def readEach : List Json → List (Datum α)
  | [] => []
  | j :: js => readDatum j :: readEach js

def readKind : List (String × Json) → Datum α
  | (key, j) :: _ =>
    if key = "f" then .real (readScalar j)
    else if key = "int" then .whole (j.string.toInt?.getD 0)
    else if key = "token" then ((Token.ofLabel? j.string).map Datum.token).getD .none
    else if key = "v" then .array (readGrid j)
    else if key = "stream" then .stream j.string
    else if key = "dict" then
      match j with
      | .object fields => .table (fields.map Prod.fst) (readFields fields)
      | _ => .none
    else .thing "Thing" "Thing()"
  | [] => .thing "Thing" "Thing()"

def readFields : List (String × Json) → List (Datum α)
  | [] => []
  | (_, j) :: fields => readDatum j :: readFields fields
end

def readPoint (j : Json) : Point α :=
  match j, j.get? "ints", j.get? "raw" with
  | .null, _, _ => .none
  | _, some ns, _ => .array ⟨[ns.items.length], .whole (ns.items.map Json.int)⟩
  | _, _, some d => readDatum d
  | j, _, _ => .array (readVec j)

/-- The text of a scalar in an answer; a rounded zero has no sign. -/
def scalarText (exact : Bool) (x : α) : String :=
  match exact, Scalar.expansion x with
  | false, .finite negative m e =>
    let (num, den) := Expansion.quotient m e
    let d :=
      if num < den then Decimal.toPlaces 10 negative num den
      else Decimal.toSignificant 10 negative num den
    let y : α := Scalar.ofDecimal d
    Scalar.standard (if Scalar.eq y 0 then 0 else y)
  | _, expansion => Decimal.standard expansion

def nested : List Nat → List Json → List Json
  | n :: m :: shape, entries =>
    (Text.rows ((m :: shape).foldl (· * ·) 1) n entries).map fun row =>
      .array (nested (m :: shape) row)
  | _, entries => entries

def writeScalar (exact : Bool) (x : α) : Json := .object [("f", .text (scalarText exact x))]

def writeVec (exact : Bool) (v : Vec α) : Json :=
  match v.shape, v.entries with
  | [], .real [x] => writeScalar exact x
  | [], .whole [n] => Json.ofInt n
  | [], .truth [b] => .truth b
  | shape, .real xs =>
    .object [("v", .array (nested shape (xs.map fun x => .text (scalarText exact x))))]
  | shape, .whole ns => .object [("v", .array (nested shape (ns.map Json.ofInt)))]
  | shape, .truth bs => .object [("v", .array (nested shape (bs.map .truth)))]

mutual
def write (exact : Bool) : Datum α → Json
  | .none => .null
  | .truth b => .truth b
  | .whole n => Json.ofInt n
  | .real x => writeScalar exact x
  | .text s => .text s
  | .list items => .array (writeEach exact items)
  | .token t => .object [("token", .text t.label)]
  | .array v => writeVec exact v
  | .stream name => .object [("stream", .text name)]
  | .table .. => .object [("type", .text "dict")]
  | .thing kind _ => .object [("type", .text kind)]

def writeEach (exact : Bool) : List (Datum α) → List Json
  | [] => []
  | d :: ds => write exact d :: writeEach exact ds
end

end Geodescent.Exchange
