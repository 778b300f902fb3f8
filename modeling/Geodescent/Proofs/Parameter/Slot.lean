import Mathlib.Data.List.Forall2
import Geodescent.Criterion.Basic
import Geodescent.Stepsize.Basic

/-! The numeric parameters of step rules and criteria, each with its check: `Slot.check`. A
constructor checks its parameters one after the other, and the first one that is refused decides:
`first_of_mapM`. -/
namespace Geodescent
variable {α : Type} [Scalar α]

/-- The scalar that a number is. Whole numbers beyond all scalars are none. -/
inductive Datum.Reads : Datum α → α → Prop
  | real (x : α) : Reads (.real x) x
  | whole {n : Int} {x : α} (within : Scalar.ofInt? n = some x) : Reads (.whole n) x

def Range.Holds : Range → α → Prop
  | .nonnegative, x => Scalar.le 0 x = true
  | .positive, x => Scalar.lt 0 x = true
  | .belowOne, x => Scalar.lt 0 x = true ∧ Scalar.lt x 1 = true

theorem ofInt?_eq_some_iff {n : Int} {x : α} :
    Scalar.ofInt? n = some x ↔ Scalar.isFinite x = true ∧ Scalar.ofInt n = x := by
  unfold Scalar.ofInt?
  dsimp only
  constructor
  · intro h
    split at h
    · cases h
      exact ⟨‹_›, rfl⟩
    · cases h
  · rintro ⟨hfinite, rfl⟩
    rw [if_pos hfinite]

theorem map_eq_ok_iff {φ β γ : Type} {a : Except φ β} {f : β → γ} {c : γ} :
    a.map f = .ok c ↔ ∃ b, a = .ok b ∧ f b = c := by
  cases a with
  | ok b => simp [Except.map]
  | error e => simp [Except.map]

theorem map_eq_error_iff {φ β γ : Type} {a : Except φ β} {f : β → γ} {e : φ} :
    a.map f = .error e ↔ a = .error e := by
  cases a with
  | ok b => simp [Except.map]
  | error e => simp [Except.map]

section Kept
variable {name : String} {range : Range} {n : Int} {x y : α}

theorem number_whole_eq_ok_iff : Parameter.number name range (.whole n) = .ok x ↔
    Scalar.ofInt? n = some x ∧ Parameter.within range (.whole n : Number α) = true := by
  rw [Parameter.number]
  cases hn : (Scalar.ofInt? n : Option α) with
  | none => exact ⟨nofun, nofun⟩
  | some y =>
    rw [Option.some.injEq]
    dsimp only
    split
    · exact ⟨fun h => ⟨Except.ok.inj h, ‹_›⟩, fun h => congrArg Except.ok h.1⟩
    · exact ⟨nofun, fun h => absurd h.2 ‹_›⟩

theorem number_real_eq_ok_iff : Parameter.number name range (.real y) = .ok x ↔
    y = x ∧ Scalar.isFinite x = true ∧ Parameter.within range (.real x) = true := by
  rw [Parameter.number]
  constructor
  · intro h
    split at h
    · split at h
      · cases h
        exact ⟨rfl, ‹_›, ‹_›⟩
      · cases h
    · cases h
  · rintro ⟨rfl, hfinite, hwithin⟩
    rw [if_pos hfinite, if_pos hwithin]

theorem isFinite_of_number {d : Datum α} (h : Parameter.number name range d = .ok x) :
    Scalar.isFinite x = true := by
  cases d with
  | whole n => exact (ofInt?_eq_some_iff.mp (number_whole_eq_ok_iff.mp h).1).1
  | real y => exact (number_real_eq_ok_iff.mp h).2.1
  | none | truth | text | list | token | array | stream | table | thing => cases h

theorem threshold_whole_eq_ok_iff : Parameter.threshold name (.whole n) = .ok x ↔
    0 < n ∧ Scalar.ofInt? n = some x := by
  rw [Parameter.threshold]
  split
  · cases hn : (Scalar.ofInt? n : Option α) with
    | none => exact ⟨nofun, nofun⟩
    | some y =>
      rw [Option.some.injEq]
      exact ⟨fun h => ⟨‹_›, Except.ok.inj h⟩, fun h => congrArg Except.ok h.2⟩
  · exact ⟨nofun, fun h => absurd h.1 ‹_›⟩

theorem threshold_real_eq_ok_iff : Parameter.threshold name (.real y) = .ok x ↔
    y = x ∧ Scalar.lt 0 x = true := by
  rw [Parameter.threshold]
  constructor
  · intro h
    split at h
    · cases h
      exact ⟨rfl, ‹_›⟩
    · cases h
  · rintro ⟨rfl, hpositive⟩
    rw [if_pos hpositive]

end Kept

inductive Slot (α : Type) where
  | number (name : String) (range : Range) (given : Datum α)
  | threshold (name : String) (given : Datum α)
  | cap (given : Datum α)
  | budget (given : Datum α)

namespace Slot

def name : Slot α → String
  | .number name _ _ | .threshold name _ => name
  | .cap _ => "max_iterations"
  | .budget _ => "max_backtracks"

def given : Slot α → Datum α
  | .number _ _ d | .threshold _ d | .cap d | .budget d => d

def check : Slot α → Answer α (Datum α)
  | .number name range d => (Parameter.number name range d).map .real
  | .threshold name d => (Parameter.threshold name d).map .real
  | .cap d => (Parameter.cap d).map fun n : Nat => .whole n
  | .budget d => Parameter.budget d

/-- What is kept is the given value, as a scalar where the parameter is one, and it is one of the
values that the parameter is documented for. -/
inductive Keeps : Slot α → Datum α → Prop
  | number {name : String} {range : Range} {d : Datum α} {x : α} (reads : d.Reads x)
      (finite : Scalar.isFinite x = true) (holds : range.Holds x) :
      Keeps (.number name range d) (.real x)
  | threshold {name : String} {d : Datum α} {x : α} (reads : d.Reads x)
      (positive : Scalar.lt 0 x = true) : Keeps (.threshold name d) (.real x)
  | cap (n : Nat) : Keeps (.cap (.whole n)) (.whole n)
  | budget (n : Nat) : Keeps (.budget (.whole n)) (.whole n)
  | unset : Keeps (.budget .none) .none

/-- A whole number beyond all scalars stands where a scalar is wanted. Thresholds are compared with
zero first. -/
def Beyond : Slot α → Prop
  | .number _ _ (.whole n) => Scalar.ofInt? n = (none : Option α)
  | .threshold _ (.whole n) => 0 < n ∧ Scalar.ofInt? n = (none : Option α)
  | _ => False

/-- The value is refused, under the name of the parameter and as it was given; or it is beyond all
scalars. -/
inductive Refuses (slot : Slot α) : Fault α → Prop
  | misuse {cause : Misuse α} (names : cause.parameter = slot.name)
      (received : cause.received = slot.given) (within : ¬ slot.Beyond) :
      Refuses slot (.misuse cause)
  | beyond (beyond : slot.Beyond) : Refuses slot (.refused .tooLarge)

theorem refuses_number {name : String} {range : Range} {d : Datum α} {e : Fault α}
    (h : Parameter.number name range d = .error e) : (number name range d).Refuses e := by
  cases d with
  | whole n =>
    rw [Parameter.number] at h
    cases hn : (Scalar.ofInt? n : Option α) with
    | none =>
      rw [hn] at h
      cases h
      exact .beyond hn
    | some x =>
      have hwithin : ¬ (number name range (.whole n) : Slot α).Beyond := fun hbeyond => by
        cases hn.symm.trans hbeyond
      rw [hn] at h
      dsimp only at h
      split at h
      · cases h
      · cases h
        exact .misuse rfl rfl hwithin
  | real x =>
    rw [Parameter.number] at h
    split at h
    · split at h
      · cases h
      · cases h
        exact .misuse rfl rfl id
    · cases h
      exact .misuse rfl rfl id
  | none | truth | text | list | token | array | stream | table | thing =>
    cases h
    exact .misuse rfl rfl id

theorem refuses_threshold {name : String} {d : Datum α} {e : Fault α}
    (h : Parameter.threshold name d = .error e) : (threshold name d).Refuses e := by
  cases d with
  | whole n =>
    rw [Parameter.threshold] at h
    split at h
    · rename_i hpos
      cases hn : (Scalar.ofInt? n : Option α) with
      | none =>
        rw [hn] at h
        cases h
        exact .beyond ⟨hpos, hn⟩
      | some x =>
        rw [hn] at h
        cases h
    · rename_i hpos
      cases h
      exact .misuse rfl rfl fun hbeyond => hpos hbeyond.1
  | real x =>
    rw [Parameter.threshold] at h
    split at h
    · cases h
    · cases h
      exact .misuse rfl rfl id
  | none | truth | text | list | token | array | stream | table | thing =>
    cases h
    exact .misuse rfl rfl id

omit [Scalar α] in
theorem cap_eq_ok_iff {d : Datum α} {n : Nat} : Parameter.cap d = .ok n ↔ d = .whole n := by
  cases d with
  | whole m =>
    rw [Parameter.cap]
    split
    · rw [Except.ok.injEq, Datum.whole.injEq]
      omega
    · refine ⟨nofun, fun h => ?_⟩
      rw [Datum.whole.injEq] at h
      omega
  | none | truth | real | text | list | token | array | stream | table | thing =>
    exact ⟨nofun, nofun⟩

omit [Scalar α] in
theorem budget_eq_ok_iff {d b : Datum α} : Parameter.budget d = .ok b ↔
    d = b ∧ (d = .none ∨ ∃ n : Nat, d = .whole n) := by
  cases d with
  | none => exact ⟨fun h => ⟨Except.ok.inj h, .inl rfl⟩, fun h => congrArg Except.ok h.1⟩
  | whole m =>
    rw [Parameter.budget]
    split
    · rename_i hm
      obtain ⟨n, rfl⟩ := Int.eq_ofNat_of_zero_le hm
      exact ⟨fun h => ⟨Except.ok.inj h, .inr ⟨n, rfl⟩⟩, fun h => congrArg Except.ok h.1⟩
    · refine ⟨nofun, ?_⟩
      rintro ⟨-, h | ⟨n, h⟩⟩
      · cases h
      · rw [Datum.whole.injEq] at h
        omega
  | truth | real | text | list | token | array | stream | table | thing =>
    refine ⟨nofun, ?_⟩
    rintro ⟨-, h | ⟨n, h⟩⟩ <;> cases h

theorem check_error {slot : Slot α} {e : Fault α} (h : slot.check = .error e) : slot.Refuses e := by
  cases slot with
  | number name range d => exact refuses_number (map_eq_error_iff.mp h)
  | threshold name d => exact refuses_threshold (map_eq_error_iff.mp h)
  | cap d =>
    have hcap := map_eq_error_iff.mp h
    cases d with
    | whole n =>
      rw [Parameter.cap] at hcap
      split at hcap
      · cases hcap
      · cases hcap
        exact .misuse rfl rfl id
    | none | truth | real | text | list | token | array | stream | table | thing =>
      cases hcap
      exact .misuse rfl rfl id
  | budget d =>
    rw [check] at h
    cases d with
    | none => cases h
    | whole n =>
      rw [Parameter.budget] at h
      split at h
      · cases h
      · cases h
        exact .misuse rfl rfl id
    | truth | real | text | list | token | array | stream | table | thing =>
      cases h
      exact .misuse rfl rfl id

def entry (slot : Slot α) : Answer α (String × Datum α) := slot.check.map (Prod.mk slot.name)

end Slot

section Checks
variable {β γ : Type} {f : β → Answer α γ}

omit [Scalar α] in
theorem forall₂_of_mapM {xs : List β} {ys : List γ} (h : xs.mapM f = .ok ys) :
    List.Forall₂ (fun x y => f x = .ok y) xs ys := by
  induction xs generalizing ys with
  | nil =>
    cases h
    exact .nil
  | cons x xs ih =>
    rw [List.mapM_cons] at h
    obtain ⟨y, hx, h₁⟩ := bind_eq_ok_iff.mp h
    obtain ⟨zs, hxs, h₂⟩ := bind_eq_ok_iff.mp h₁
    cases h₂
    exact .cons hx (ih hxs)

omit [Scalar α] in
theorem first_of_mapM {xs : List β} {e : Fault α} (h : xs.mapM f = .error e) :
    ∃ pre x post, xs = pre ++ x :: post ∧ (∀ z ∈ pre, ∃ y, f z = .ok y) ∧ f x = .error e := by
  induction xs with
  | nil => cases h
  | cons x xs ih =>
    rw [List.mapM_cons] at h
    rcases hx : f x with e' | y
    · rw [hx] at h
      cases h
      exact ⟨[], x, xs, rfl, fun _ hz => absurd hz List.not_mem_nil, hx⟩
    · rw [hx] at h
      rcases hxs : xs.mapM f with e' | ys
      · rw [hxs] at h
        cases h
        obtain ⟨pre, z, post, rfl, hpre, hz⟩ := ih hxs
        exact ⟨x :: pre, z, post, rfl, List.forall_mem_cons.mpr ⟨⟨y, hx⟩, hpre⟩, hz⟩
      · rw [hxs] at h
        cases h

end Checks
end Geodescent
