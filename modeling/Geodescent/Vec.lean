import Geodescent.Number

/-!
Arrays of numbers, flat with a shape: scalars, whole numbers of 64 bits or truth values. `Vec.reals`
is the view as scalars; whole numbers stay whole as long as they only meet whole numbers, and wrap
around at the ends of their range. An array with a single entry is combined with every entry of
another one.
-/
namespace Geodescent

inductive Entries (α : Type) where
  | real (xs : List α)
  | whole (ns : List Int)
  | truth (bs : List Bool)
deriving DecidableEq

structure Vec (α : Type) where
  shape : List Nat
  entries : Entries α
deriving DecidableEq

def fitsEntry (n : Int) : Bool := -9223372036854775808 ≤ n && n < 9223372036854775808

def wrapEntry (n : Int) : Int := n.bmod 18446744073709551616

def total (ns : List Int) : Int := ns.foldl (· + ·) 0

/-- Combine entries in pairs; a single entry meets every entry of the other side. -/
def pair {β γ δ : Type} (f : β → γ → δ) (xs : List β) (ys : List γ) : List δ :=
  match xs, ys with
  | [x], ys => ys.map (f x)
  | xs, [y] => xs.map (f · y)
  | xs, ys => List.zipWith f xs ys

theorem pair_eq_zipWith {β γ δ : Type} (f : β → γ → δ) {xs : List β} {ys : List γ}
    (h : xs.length = ys.length) : pair f xs ys = List.zipWith f xs ys := by
  match xs, ys with
  | [], [] => rfl
  | [x], [y] => rfl
  | _ :: _ :: _, _ :: _ :: _ => rfl
  | [], _ :: _ => cases h
  | _ :: _, [] => cases h
  | [_], _ :: _ :: _ => cases h
  | _ :: _ :: _, [_] => cases h

/-- An operation on entries: on scalars, on whole numbers, and on truth values where it takes them.
`mask?` is what a truth value does to the scalar in its place, if it does not count as a number. -/
structure Pairing (α : Type) where
  real : α → α → α
  whole : Int → Int → Int
  truth? : Option (Bool → Bool → Bool)
  mask? : Option (Bool → α → α)

namespace Pairing
variable {α : Type} [Scalar α]

def add : Pairing α := ⟨Scalar.plus, (· + ·), some or, none⟩

def sub : Pairing α := ⟨Scalar.minus, (· - ·), none, none⟩

def mul : Pairing α := ⟨Scalar.times, (· * ·), some and, some fun b x => if b then x else 0⟩

end Pairing

namespace Entries
variable {α : Type} [Scalar α]

def reals : Entries α → List α
  | .real xs => xs
  | .whole ns => ns.map Scalar.ofInt
  | .truth bs => bs.map fun b => Scalar.ofInt b.toInt

def wholes? : Entries α → Option (List Int)
  | .real _ => none
  | .whole ns => some ns
  | .truth bs => some (bs.map Bool.toInt)

def length : Entries α → Nat
  | .real xs => xs.length
  | .whole ns => ns.length
  | .truth bs => bs.length

def slice (start count : Nat) : Entries α → Entries α
  | .real xs => .real ((xs.drop start).take count)
  | .whole ns => .whole ((ns.drop start).take count)
  | .truth bs => .truth ((bs.drop start).take count)

def truths? : Entries α → Option (List Bool)
  | .truth bs => some bs
  | _ => none

def zip (p : Pairing α) (a b : Entries α) : Entries α :=
  match p.truth?, a.truths?, b.truths?, a.wholes?, b.wholes? with
  | some f, some bs, some cs, _, _ => .truth (pair f bs cs)
  | _, _, _, some ns, some ms => .whole (pair (fun n m => wrapEntry (p.whole n m)) ns ms)
  | _, _, _, _, _ => .real (pair p.real a.reals b.reals)

theorem zip_real (p : Pairing α) {xs ys : List α} (h : xs.length = ys.length) :
    zip p (.real xs) (.real ys) = .real (List.zipWith p.real xs ys) := by
  rw [← pair_eq_zipWith p.real h]
  cases hp : p.truth? <;> simp [zip, truths?, wholes?, reals, hp]

def sum (e : Entries α) : Number α :=
  match e with
  | .real xs => .real (Scalar.sum xs)
  | .whole ns => .whole (wrapEntry (total ns))
  | .truth bs => .whole (total (bs.map Bool.toInt))

end Entries

namespace Vec
variable {α : Type} [Scalar α]

def ofReals (xs : List α) : Vec α := ⟨[xs.length], .real xs⟩

def ofReal (x : α) : Vec α := ⟨[], .real [x]⟩

def reals (v : Vec α) : List α := v.entries.reals

@[simp] theorem reals_mk_real (shape : List Nat) (xs : List α) :
    (Vec.mk shape (.real xs)).reals = xs := rfl

def jointShape? (s t : List Nat) : Option (List Nat) :=
  if s = t then some s
  else if s.all (· = 1) then some (List.replicate (s.length - t.length) 1 ++ t)
  else if t.all (· = 1) then some (List.replicate (t.length - s.length) 1 ++ s)
  else none

@[simp] theorem jointShape?_self (s : List Nat) : jointShape? s s = some s := by simp [jointShape?]

theorem jointShape?_nil (s : List Nat) : jointShape? s [] = some s := by
  unfold jointShape?
  split
  · rfl
  · split
    · rename_i hones
      have hall : s = List.replicate s.length 1 := by
        refine List.eq_replicate_of_mem fun n hn => ?_
        simpa using List.all_eq_true.mp hones n hn
      rw [List.append_nil, List.length_nil, Nat.sub_zero, ← hall]
    · simp

def meets (u v : Vec α) : Bool := (jointShape? u.shape v.shape).isSome

/-- The entries of two arrays combined, if truth values on one side mask the scalars on the other.
Truth values that are spread over a larger shape mask nothing. -/
def masked? (p : Pairing α) (shape : List Nat) (u v : Vec α) : Option (List α) :=
  match p.mask?, u.entries, v.entries with
  | some f, .truth bs, .real xs => if u.shape = shape then some (pair f bs xs) else none
  | some f, .real xs, .truth bs =>
    if v.shape = shape then some (pair (fun x b => f b x) xs bs) else none
  | _, _, _ => none

def zip (p : Pairing α) (u v : Vec α) : Vec α :=
  let shape := (jointShape? u.shape v.shape).getD u.shape
  match masked? p shape u v with
  | some xs => ⟨shape, .real xs⟩
  | none => ⟨shape, u.entries.zip p v.entries⟩

/-- Whether an operation takes two arrays: they have a joint shape, and they are not both made of
truth values where it takes none. -/
def takes (p : Pairing α) (u v : Vec α) : Bool :=
  u.meets v && (p.truth?.isSome || u.entries.truths?.isNone || v.entries.truths?.isNone)

def zipReals (f : α → α → α) (u v : Vec α) : Vec α :=
  ⟨(jointShape? u.shape v.shape).getD u.shape, .real (pair f u.reals v.reals)⟩

instance : Add (Vec α) := ⟨zip .add⟩

instance : Sub (Vec α) := ⟨zip .sub⟩

instance : Mul (Vec α) := ⟨zip .mul⟩

theorem zip_ofReals (p : Pairing α) {xs ys : List α} (h : xs.length = ys.length) :
    zip p (ofReals xs) (ofReals ys) = ofReals (List.zipWith p.real xs ys) := by
  simp [zip, masked?, ofReals, h, Entries.zip_real p h]

theorem ofReals_mul {xs ys : List α} (h : xs.length = ys.length) :
    ofReals xs * ofReals ys = ofReals (List.zipWith Scalar.times xs ys) := zip_ofReals .mul h

def map (f : α → α) (v : Vec α) : Vec α := ⟨v.shape, .real (v.reals.map f)⟩

instance : Neg (Vec α) where
  neg v :=
    match v.entries.wholes? with
    | some ns => ⟨v.shape, .whole (ns.map fun n => wrapEntry (-n))⟩
    | none => v.map (- ·)

def zeros (v : Vec α) : Vec α :=
  match v.entries with
  | .real xs => ⟨v.shape, .real (xs.map fun _ => 0)⟩
  | .whole ns => ⟨v.shape, .whole (ns.map fun _ => 0)⟩
  | .truth bs => ⟨v.shape, .truth (bs.map fun _ => false)⟩

def parts? (v : Vec α) : Option (List (Vec α)) :=
  match v.shape with
  | [] => none
  | n :: shape =>
    let size := shape.foldl (· * ·) 1
    some ((List.range n).map fun i => ⟨shape, v.entries.slice (i * size) size⟩)

def dots (u v : Vec α) : Bool :=
  match u.shape, v.shape with
  | [], _ => true
  | _, [] => true
  | [n], [m] => n == m
  | _, _ => false

def ofNumber : Number α → Vec α
  | .whole n => ⟨[], .whole [wrapEntry n]⟩
  | .real x => ofReal x

def sum (v : Vec α) : Number α := v.entries.sum

/-- The sum of the products of entries, which keeps whole numbers whole; an array without axes is
multiplied with the other one. -/
def dot (u v : Vec α) : Vec α :=
  match u.shape, v.shape with
  | [_], [_] =>
    match u.entries, v.entries with
    | .truth bs, .truth cs => ⟨[], .truth [(pair and bs cs).any id]⟩
    | _, _ => ofNumber (u * v).sum
  | _, _ => u * v

theorem dot_ofReals {xs ys : List α} (h : xs.length = ys.length) :
    (ofReals xs).dot (ofReals ys) = ofReal (Scalar.dot xs ys) := by
  change ofNumber (ofReals xs * ofReals ys).sum = _
  rw [ofReals_mul h]
  rfl

def norm (v : Vec α) : α := Scalar.norm v.reals

def isFinite (v : Vec α) : Bool := v.reals.all Scalar.isFinite

def entry? (v : Vec α) : Option (Number α) :=
  match v.entries with
  | .real [x] => some (.real x)
  | .whole [n] => some (.whole n)
  | .truth [b] => some (.whole b.toInt)
  | _ => none

end Vec
end Geodescent
