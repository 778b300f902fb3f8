import Mathlib
import Geodescent.Manifold.Euclidean
import Geodescent.Proofs.Sweep.Exact

/-! Flat space in exact arithmetic. An array of scalars is a vector of coordinates, and the manifold
does with it what vector spaces do. -/
namespace Geodescent

abbrev Space (n : Nat) := EuclideanSpace ℝ (Fin n)

section Coordinates
variable {n : Nat}

theorem zipWith_ofFn {β γ δ : Type} (f : β → γ → δ) (x : Fin n → β) (y : Fin n → γ) :
    List.zipWith f (List.ofFn x) (List.ofFn y) = List.ofFn fun i => f (x i) (y i) := by
  refine List.ext_getElem ?_ fun i hi hj => ?_
  · rw [List.length_zipWith, List.length_ofFn, List.length_ofFn, List.length_ofFn, Nat.min_self]
  · rw [List.getElem_zipWith, List.getElem_ofFn, List.getElem_ofFn, List.getElem_ofFn]

theorem pair_single_right {β γ δ : Type} (f : β → γ → δ) (xs : List β) (y : γ) :
    pair f xs [y] = xs.map (f · y) := by
  match xs with
  | [] | [_] | _ :: _ :: _ => rfl

theorem Scalar.sum_eq_sum (xs : List ℝ) : Scalar.sum xs = xs.sum := by
  have hfold : xs.foldl Scalar.plus 0 = xs.sum := List.sum_eq_foldl.symm
  unfold Scalar.sum
  split
  · exact (List.sum_singleton).symm
  · exact hfold

theorem Scalar.dot_ofFn (x y : Space n) :
    Scalar.dot (List.ofFn x) (List.ofFn y) = inner ℝ x y := by
  have hproduct (i : Fin n) : Scalar.times (x i) (y i) = inner ℝ (x i) (y i) := mul_comm (x i) (y i)
  rw [Scalar.dot, Scalar.sum_eq_sum, zipWith_ofFn, List.sum_ofFn, PiLp.inner_apply]
  exact Finset.sum_congr rfl fun i _ => hproduct i

theorem Scalar.norm_eq_sqrt (xs : List ℝ) :
    Scalar.norm xs = √(xs.map fun x => x * x).sum := by
  unfold Scalar.norm
  split
  · rw [Scalar.magnitude_eq_abs, List.map_singleton, List.sum_singleton, Real.sqrt_mul_self_eq_abs]
  · rw [Scalar.sum_eq_sum]
    rfl

theorem Scalar.norm_ofFn (x : Space n) : Scalar.norm (List.ofFn x) = ‖x‖ := by
  rw [Scalar.norm_eq_sqrt, List.map_ofFn, List.sum_ofFn, EuclideanSpace.norm_eq]
  congr 1
  refine Finset.sum_congr rfl fun i _ => ?_
  rw [Real.norm_eq_abs, sq_abs, sq]
  rfl

end Coordinates

namespace Flat
variable {n : Nat} {d : Datum ℝ} {x : Space n}

def point (x : Space n) : Point ℝ := Datum.line (List.ofFn x)

theorem point_eq (x : Space n) : point x = .array ⟨[n], .real (List.ofFn x)⟩ := by
  rw [point, Datum.line, Vec.ofReals, List.length_ofFn]

/-- An array of any kind of numbers that holds the coordinates of a vector. -/
def Holds (d : Datum ℝ) (x : Space n) : Prop :=
  ∃ v : Vec ℝ, d = .array v ∧ v.shape = [n] ∧ v.reals = List.ofFn x

theorem holds_point (x : Space n) : Holds (point x) x :=
  ⟨_, point_eq x, rfl, rfl⟩

section Arithmetic

theorem entries_zip_of_real (p : Pairing ℝ) {a b : Entries ℝ}
    (h : a.wholes? = none ∨ b.wholes? = none) :
    a.zip p b = .real (pair p.real a.reals b.reals) := by
  unfold Entries.zip
  cases a with
  | real xs => cases p.truth? <;> rfl
  | whole ns =>
    cases b with
    | real ys => cases p.truth? <;> rfl
    | whole | truth => rcases h with h | h <;> cases h
  | truth bs =>
    cases b with
    | real ys => cases p.truth? <;> rfl
    | whole | truth => rcases h with h | h <;> cases h

theorem combine_of_real (onNumbers : Number ℝ → Number ℝ → Except Refusal (Number ℝ))
    {p : Pairing ℝ} {u v : Vec ℝ} (hmask : p.mask? = none) (hshape : u.shape = v.shape)
    (hreal : u.entries.wholes? = none ∨ v.entries.wholes? = none) :
    Datum.combine onNumbers p (.array u) (.array v) =
      .ok (.array ⟨u.shape, .real (pair p.real u.reals v.reals)⟩) := by
  have htruths {e : Entries ℝ} (h : e.wholes? = none) : e.truths?.isNone = true := by
    cases e with
    | real => rfl
    | whole | truth => cases h
  have htakes : Vec.takes p u v = true := by
    rw [Vec.takes, Vec.meets, hshape, Vec.jointShape?_self]
    rcases hreal with h | h
    · rw [htruths h, Bool.or_true]
      rfl
    · rw [htruths h, Bool.or_true]
      rfl
  have hmasked (shape : List Nat) : Vec.masked? p shape u v = none := by
    rw [Vec.masked?, hmask]
  rw [Datum.combine_array onNumbers p htakes, Vec.zip, hmasked, hshape, Vec.jointShape?_self,
    entries_zip_of_real p hreal]
  rfl

theorem combine_holds (onNumbers : Number ℝ → Number ℝ → Except Refusal (Number ℝ))
    {p : Pairing ℝ} (hmask : p.mask? = none) (h : Holds d x) (y : Space n) :
    Datum.combine onNumbers p d (point y) =
      .ok (.array ⟨[n], .real (List.ofFn fun i => p.real (x i) (y i))⟩) := by
  obtain ⟨v, rfl, hshape, hreals⟩ := h
  have hlength : (List.ofFn x).length = (List.ofFn y).length := by
    rw [List.length_ofFn, List.length_ofFn]
  rw [point_eq, combine_of_real onNumbers hmask hshape (.inr rfl), Vec.reals_mk_real, hreals,
    pair_eq_zipWith _ hlength, zipWith_ofFn, hshape]

theorem sub_point (h : Holds d x) (y : Space n) : (point y).sub d = .ok (point (y - x)) := by
  obtain ⟨v, rfl, hshape, hreals⟩ := h
  have hlength : (List.ofFn y).length = (List.ofFn x).length := by
    rw [List.length_ofFn, List.length_ofFn]
  rw [point_eq, point_eq]
  refine (combine_of_real Number.sub rfl hshape.symm (.inl rfl)).trans ?_
  rw [Vec.reals_mk_real, hreals, pair_eq_zipWith _ hlength, zipWith_ofFn]
  rfl

theorem sub_holds (h : Holds d x) (y : Space n) : d.sub (point y) = .ok (point (x - y)) := by
  rw [point_eq (x - y)]
  exact combine_holds Number.sub rfl h y

theorem add_point (h : Holds d x) (y : Space n) : d.add (point y) = .ok (point (x + y)) := by
  have hsum := combine_holds Number.add (p := .add) rfl h y
  obtain ⟨v, rfl, -⟩ := h
  rw [point_eq (x + y)]
  exact hsum

theorem neg_point (x : Space n) : (point x).neg = .ok (point (-x)) := by
  rw [point_eq, point_eq]
  change Except.ok (Datum.array (-⟨[n], .real (List.ofFn x)⟩)) = _
  change Except.ok (Datum.array ⟨[n], .real ((List.ofFn x).map (- ·))⟩) = _
  rw [List.map_ofFn]
  rfl

theorem onArrays_number {p : Pairing ℝ} {a : Datum ℝ} {e : Entries ℝ} {xs : List ℝ}
    (ha : a.operands (.array ⟨[n], .real xs⟩) = .ok (⟨[], e⟩, ⟨[n], .real xs⟩))
    (he : e.truths? = none) :
    Datum.onArrays p a (.array ⟨[n], .real xs⟩) =
      .ok (.array ⟨[n], .real (pair p.real e.reals xs)⟩) := by
  have hjoint : Vec.jointShape? [] [n] = some [n] := rfl
  have htakes : Vec.takes p ⟨[], e⟩ ⟨[n], .real xs⟩ = true := by
    rw [Vec.takes, Vec.meets, hjoint, he, Option.isNone_none, Bool.or_true, Bool.true_or]
    rfl
  have hmasked : Vec.masked? p [n] ⟨[], e⟩ ⟨[n], .real xs⟩ = none := by
    cases e with
    | real | whole => cases hp : p.mask? <;> simp only [Vec.masked?, hp]
    | truth => cases he
  unfold Datum.onArrays
  rw [ha]
  change (if Vec.takes p ⟨[], e⟩ ⟨[n], .real xs⟩ then
    Except.ok (Datum.array (Vec.zip p ⟨[], e⟩ ⟨[n], .real xs⟩)) else _) = _
  rw [if_pos htakes, Vec.zip, hjoint, Option.getD_some, hmasked, entries_zip_of_real p (.inr rfl)]
  rfl

theorem zero_add_point (x : Space n) : (Datum.whole 0).add (point x) = .ok (point x) := by
  have hentry (r : ℝ) : Scalar.plus (Scalar.ofInt 0) r = r := by
    change ((0 : Int) : ℝ) + r = r
    rw [Int.cast_zero, zero_add]
  rw [point_eq]
  refine (onArrays_number (e := .whole [0]) rfl rfl).trans ?_
  change Except.ok (Datum.array ⟨[n], .real ((List.ofFn x).map (Scalar.plus (Scalar.ofInt 0)))⟩) = _
  rw [funext hentry, List.map_id']

theorem onArrays_scalar {a : Datum ℝ} {c : ℝ} {x : Space n}
    (ha : a.operands (.array ⟨[n], .real (List.ofFn x)⟩) =
      .ok (⟨[], .real [c]⟩, ⟨[n], .real (List.ofFn x)⟩)) :
    Datum.onArrays .mul a (point x) = .ok (point (c • x)) := by
  rw [point_eq, point_eq]
  refine (onArrays_number (e := .real [c]) ha rfl).trans ?_
  change Except.ok (Datum.array ⟨[n], .real ((List.ofFn x).map (Scalar.times c))⟩) = _
  rw [List.map_ofFn]
  rfl

theorem scale_point (c : ℝ) (x : Space n) : (Datum.real c).mul (point x) = .ok (point (c • x)) :=
  onArrays_scalar rfl

theorem scale_single (c : ℝ) (x : Space n) :
    (Datum.single c).mul (point x) = .ok (point (c • x)) :=
  onArrays_scalar rfl

theorem div_number {a : Datum ℝ} {e : Entries ℝ} {c : ℝ} (numeric : a.isNumeric = true)
    (operand : a.operand = .ok ⟨[], e⟩) (entry : e.reals = [c]) (x : Space n) :
    (point x).div a = .ok (point (c⁻¹ • x)) := by
  let u : Vec ℝ := ⟨[n], .real (List.ofFn x)⟩
  let v : Vec ℝ := ⟨[], e⟩
  have hoperands : (Datum.array u).operands a = .ok (u, v) := by
    unfold Datum.operands
    rw [numeric, operand]
    rfl
  have hmeets : u.meets v = true := by
    rw [Vec.meets, Vec.jointShape?_nil]
    rfl
  have hentry (i : Fin n) : Scalar.quotient (x i) c = (c⁻¹ • x) i := div_eq_inv_mul (x i) c
  have hzip : u.zipReals Scalar.quotient v = ⟨[n], .real (List.ofFn (c⁻¹ • x))⟩ := by
    rw [Vec.zipReals, Vec.jointShape?_nil, Option.getD_some]
    change (⟨[n], .real (pair Scalar.quotient (List.ofFn x) e.reals)⟩ : Vec ℝ) = _
    rw [entry, pair_single_right, List.map_ofFn, ← funext hentry]
    rfl
  rw [point_eq, point_eq, ← hzip, Datum.div, hoperands]
  change (if u.meets v then _ else _) = _
  rw [if_pos hmeets]

theorem div_point {k : Int} (fits : fitsEntry k = true) (x : Space n) :
    (point x).div (.whole k) = .ok (point ((k : ℝ)⁻¹ • x)) := by
  refine div_number rfl (e := .whole [k]) ?_ rfl x
  rw [Datum.operand, if_pos fits]

theorem div_single (c : ℝ) (x : Space n) :
    (point x).div (.single c) = .ok (point (c⁻¹ • x)) :=
  div_number rfl (e := .real [c]) rfl rfl x

theorem dot_point (x y : Space n) : (point x).dot (point y) = .ok (.single (inner ℝ x y)) := by
  have hlength : (List.ofFn x).length = (List.ofFn y).length := by
    rw [List.length_ofFn, List.length_ofFn]
  have hdots : (Vec.ofReals (List.ofFn x)).dots (Vec.ofReals (List.ofFn y)) = true :=
    beq_iff_eq.mpr hlength
  change (if (Vec.ofReals (List.ofFn x)).dots (Vec.ofReals (List.ofFn y)) then
    Except.ok (Datum.array ((Vec.ofReals (List.ofFn x)).dot (Vec.ofReals (List.ofFn y)))) else _) = _
  rw [if_pos hdots, Vec.dot_ofReals hlength, Scalar.dot_ofFn]
  rfl

theorem norm_point (x : Space n) : (point x).norm = .ok ‖x‖ := by
  rw [point, Datum.norm_line, Scalar.norm_ofFn]

end Arithmetic

section Operations
variable (k : Datum ℝ)

theorem exp_point (h : Holds d x) (v : Space n) :
    (Manifold.euclideanOf k).exp d (point v) = .ok (point (x + v)) :=
  refusing_eq_ok_iff.mpr (add_point h v)

theorem retract_point (h : Holds d x) (v : Space n) :
    (Manifold.euclideanOf k).retract d (point v) = .ok (point (x + v)) :=
  refusing_eq_ok_iff.mpr (add_point h v)

theorem log_point (h : Holds d x) (y : Space n) :
    (Manifold.euclideanOf k).log d (point y) = .ok (point (y - x)) :=
  refusing_eq_ok_iff.mpr (sub_point h y)

theorem inner_point (u v : Space n) :
    (Manifold.euclideanOf k).inner d (point u) (point v) = .ok (.single (inner ℝ u v)) :=
  refusing_eq_ok_iff.mpr (dot_point u v)

theorem dist_point (h : Holds d x) (y : Space n) :
    (Manifold.euclideanOf k).dist d (point y) = .ok ‖y - x‖ := by
  refine refusing_eq_ok_iff.mpr ?_
  rw [Manifold.Euclidean.dist, sub_point h y]
  exact norm_point (y - x)

theorem dist_holds (h : Holds d x) (y : Space n) :
    (Manifold.euclideanOf k).dist (point y) d = .ok ‖x - y‖ := by
  refine refusing_eq_ok_iff.mpr ?_
  rw [Manifold.Euclidean.dist, sub_holds h y]
  exact norm_point (x - y)

end Operations

theorem contains_of_holds (h : Holds d x) (t : Datum ℝ) :
    (Manifold.euclideanOf (.whole n)).contains d t = .ok true := by
  obtain ⟨v, rfl, hshape, -⟩ := h
  have hline : Manifold.isLine (.whole n) v = .ok true := by
    rw [Manifold.isLine, hshape]
    change Except.ok (decide ((n : Int) = n)) = _
    rw [decide_eq_true rfl]
  have hfinite : v.isFinite = true := List.all_eq_true.mpr fun _ _ => rfl
  change (Manifold.isLine (.whole n) v >>= fun line => Except.ok (line && v.isFinite)) = _
  rw [hline, hfinite]
  rfl

end Flat
end Geodescent
