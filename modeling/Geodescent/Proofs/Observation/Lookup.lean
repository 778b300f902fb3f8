import Geodescent.Proofs.Observation.Log
import Geodescent.Proofs.Observation.Vocabulary

/-! Looking up what was recorded of one quantity. The lookup goes through the members of groups from
left to right and through wrappers to the leaf below them, but not from a wrapper into a group:
`lookup_law`. -/
namespace Geodescent

namespace RecordAction
variable {α : Type} {memory : Store (ActionMemory α)} {a : RecordAction} {as : List RecordAction}
  {T : Token} {ℓ : Leaf RecordKind} {before after : List (Leaf RecordKind)}

def grouped : RecordAction → Bool
  | .leaf .. => false
  | .group .. => true
  | .every _ a => grouped a

mutual
/-- The leaves of a tree from left to right, less those of groups below wrappers. -/
def exposed : RecordAction → List (Leaf RecordKind)
  | .leaf id kind cadence => [⟨id, kind, cadence, []⟩]
  | .group _ members => exposedEach members
  | .every cadence a => if grouped a then [] else (leaves a).map (Leaf.under cadence)

def exposedEach : List RecordAction → List (Leaf RecordKind)
  | [] => []
  | a :: as => exposed a ++ exposedEach as
end

mutual
/-- No wrapper stands above a group. -/
def Open : RecordAction → Prop
  | .leaf .. => True
  | .group _ members => OpenEach members
  | .every _ a => grouped a = false

def OpenEach : List RecordAction → Prop
  | [] => True
  | a :: as => Open a ∧ OpenEach as
end

/-- The first leaf of a list that records a quantity. -/
structure First (T : Token) (ℓs : List (Leaf RecordKind)) (ℓ : Leaf RecordKind) : Prop where
  split : ∃ before after, ℓs = before ++ ℓ :: after ∧ ∀ m ∈ before, m.kind ≠ .quantity T
  kind : ℓ.kind = .quantity T

section Exposed

theorem exposedEach_singleton (a : RecordAction) : exposedEach [a] = a.exposed :=
  List.append_nil _

theorem exposedEach_sublist (h : ∀ a ∈ as, a.exposed.Sublist a.leaves) :
    (exposedEach as).Sublist (leavesEach as) := by
  induction as with
  | nil => exact .refl _
  | cons a as ih =>
    obtain ⟨ha, has⟩ := List.forall_mem_cons.mp h
    exact ha.append (ih has)

theorem exposed_sublist (a : RecordAction) : a.exposed.Sublist a.leaves := by
  induction a using induct with
  | leaf id kind cadence => exact .refl _
  | group id members ih => exact exposedEach_sublist ih
  | every cadence a ih =>
    rw [exposed, leaves_every]
    split
    · exact List.nil_sublist _
    · exact .refl _

theorem openEach_iff : OpenEach as ↔ ∀ a ∈ as, a.Open := by
  induction as with
  | nil => simp [OpenEach]
  | cons a as ih => simp [OpenEach, ih]

theorem exposedEach_eq_leavesEach (h : ∀ a ∈ as, a.exposed = a.leaves) :
    exposedEach as = leavesEach as := by
  induction as with
  | nil => rfl
  | cons a as ih =>
    obtain ⟨ha, has⟩ := List.forall_mem_cons.mp h
    rw [exposedEach, leavesEach, ha, ih has]

theorem exposed_eq_leaves (h : a.Open) : a.exposed = a.leaves := by
  induction a using induct with
  | leaf id kind cadence => rfl
  | group id members ih =>
    have hmembers := openEach_iff.mp h
    exact exposedEach_eq_leavesEach fun a ha => ih a ha (hmembers a ha)
  | every cadence a ih =>
    have hopen : a.grouped = false := h
    rw [exposed, hopen]
    rfl

theorem leaves_of_not_grouped (h : a.grouped = false) :
    ∃ ℓ, a.leaves = [ℓ] ∧ ℓ.id = a.id ∧ ℓ.kind.token? = a.token? := by
  induction a using induct with
  | leaf id kind cadence => exact ⟨_, rfl, rfl, rfl⟩
  | group id members => cases h
  | every cadence a ih =>
    obtain ⟨ℓ, hleaves, hid, htoken⟩ := ih h
    refine ⟨ℓ.under cadence, ?_, hid, htoken⟩
    rw [leaves_every, hleaves]
    rfl

theorem token?_of_grouped (h : a.grouped = true) : a.token? = none := by
  induction a using induct with
  | leaf id kind cadence => cases h
  | group id members => rfl
  | every cadence a ih => exact ih h

end Exposed

section Find

theorem token?_eq_some_iff {kind : RecordKind} : kind.token? = some T ↔ kind = .quantity T := by
  cases kind with
  | quantity t => simp [RecordKind.token?]
  | unwritten => simp [RecordKind.token?]

def valuesOfFirst (memory : Store (ActionMemory α)) (T : Token) (ℓs : List (Leaf RecordKind)) :
    Option (List (Datum α)) :=
  (ℓs.find? fun ℓ => ℓ.kind = .quantity T).map fun ℓ => (memory.get ℓ.id).recorded.toList

theorem valuesOfFirst_singleton : valuesOfFirst memory T [ℓ] =
    if ℓ.kind = .quantity T then some (memory.get ℓ.id).recorded.toList else none := by
  by_cases h : ℓ.kind = .quantity T <;> simp [valuesOfFirst, h]

theorem valuesOfFirst_append (ℓs ℓs' : List (Leaf RecordKind)) :
    valuesOfFirst memory T (ℓs ++ ℓs') =
      (valuesOfFirst memory T ℓs).or (valuesOfFirst memory T ℓs') := by
  rw [valuesOfFirst, List.find?_append, Option.map_or]
  rfl

theorem findEach?_eq (h : ∀ a ∈ as, find? memory (some T) a = valuesOfFirst memory T a.exposed) :
    findEach? memory (some T) as = valuesOfFirst memory T (exposedEach as) := by
  induction as with
  | nil => rfl
  | cons a as ih =>
    obtain ⟨ha, has⟩ := List.forall_mem_cons.mp h
    rw [findEach?, exposedEach, valuesOfFirst_append, ha, ih has]
    cases valuesOfFirst memory T a.exposed <;> rfl

theorem find?_eq (memory : Store (ActionMemory α)) (T : Token) (a : RecordAction) :
    find? memory (some T) a = valuesOfFirst memory T a.exposed := by
  induction a using induct with
  | leaf id kind cadence =>
    rw [exposed, valuesOfFirst_singleton, find?]
    simp only [Option.isSome_some, Bool.true_and, decide_eq_true_eq, token?_eq_some_iff]
  | group id members ih => exact findEach?_eq ih
  | every cadence a ih =>
    rw [find?, exposed]
    cases hgrouped : a.grouped with
    | true =>
      -- the wrapper has no quantity of its own, and the lookup does not go down any further
      rw [token?_of_grouped hgrouped]
      rfl
    | false =>
      obtain ⟨ℓ, hleaves, hid, htoken⟩ := leaves_of_not_grouped hgrouped
      rw [hleaves, if_neg Bool.false_ne_true, List.map_singleton, valuesOfFirst_singleton]
      have hsame : a.token? = some T ↔ ℓ.kind = .quantity T := by rw [← htoken, token?_eq_some_iff]
      by_cases hkind : ℓ.kind = .quantity T
      · simp [Leaf.under, recorded, hkind, hsame.mpr hkind, hid]
      · simp [Leaf.under, hkind, mt hsame.mp hkind]

theorem valuesOfFirst_of_first {ℓs : List (Leaf RecordKind)} (h : First T ℓs ℓ) :
    valuesOfFirst memory T ℓs = some (memory.get ℓ.id).recorded.toList := by
  obtain ⟨⟨before, after, rfl, hbefore⟩, hkind⟩ := h
  have hnone : before.find? (fun m => m.kind = .quantity T) = none :=
    List.find?_eq_none.mpr fun m hm => by simpa using hbefore m hm
  simp [valuesOfFirst, List.find?_append, hnone, hkind]

variable (memory) in
theorem valuesOfFirst_eq_none_iff {ℓs : List (Leaf RecordKind)} :
    valuesOfFirst memory T ℓs = none ↔ ∀ ℓ ∈ ℓs, ℓ.kind ≠ .quantity T := by
  simp [valuesOfFirst]

end Find
end RecordAction

namespace Decorator
open RecordAction Solver
variable {ε α : Type} {memory : Store (ActionMemory α)} {token : Datum α} {T : Token}
  {pre post : List (Decorator ε α)} {d : Decorator ε α} {a : RecordAction} {next next' : Nat}

theorem made_record (made : makeRecord next (.action a) = (.ok (d, next') : Answer α _)) :
    ∃ id members, d = .record (.group id members) ∧ exposedEach members = a.exposed := by
  cases a with
  | group id members =>
    cases made
    exact ⟨id, members, rfl, rfl⟩
  -- anything else is put into a group of its own first
  | leaf id kind cadence =>
    cases made
    exact ⟨next, _, rfl, exposedEach_singleton _⟩
  | every cadence b =>
    cases made
    exact ⟨next, _, rfl, exposedEach_singleton _⟩

theorem record?_append (hpre : record? pre = none) (ds : List (Decorator ε α)) :
    record? (pre ++ ds) = record? ds := by
  induction pre with
  | nil => rfl
  | cons e pre ih =>
    cases e with
    | record g => cases hpre
    | plain | debug _ | custom _ _ _ => exact ih hpre

theorem getRecord_eq (named : TokenList.Names token T) (hpre : record? pre = none)
    (made : makeRecord next (.action a) = (.ok (d, next') : Answer α _)) :
    getRecord memory token (pre ++ d :: post) =
      match valuesOfFirst memory T a.exposed with
      | some values => .ok values
      | none => .error (.misuse (.nothingRecorded token)) := by
  obtain ⟨id, members, rfl, hexposed⟩ := made_record made
  have hfind : findEach? memory (some T) members = valuesOfFirst memory T a.exposed := by
    rw [findEach?_eq fun b _ => find?_eq memory T b, hexposed]
  have hvalues : getRecord memory token (pre ++ .record (.group id members) :: post) =
      (group id members).values memory token := by
    rw [getRecord, record?_append hpre]
    cases named <;> rfl
  rw [hvalues, values, TokenList.symbol?_eq_some_iff.mpr named]
  cases hfirst : valuesOfFirst memory T a.exposed with
  | none => rw [hfind, hfirst]
  | some values => rw [hfind, hfirst]

/-- What the lookup of a quantity gives: the values of the first leaf that records it, among the
leaves that are not in a group below a wrapper, and a fault if there is none. -/
theorem lookup_law (named : TokenList.Names token T) (hpre : record? pre = none)
    (made : makeRecord next (.action a) = (.ok (d, next') : Answer α _)) :
    (∀ ℓ, First T a.exposed ℓ →
      getRecord memory token (pre ++ d :: post) = .ok (memory.get ℓ.id).recorded.toList) ∧
    ((∃ f, getRecord memory token (pre ++ d :: post) = .error f) ↔
      ∀ ℓ ∈ a.exposed, ℓ.kind ≠ .quantity T) ∧
    (∀ f, getRecord memory token (pre ++ d :: post) = .error f →
      f = .misuse (.nothingRecorded token)) ∧
    a.exposed.Sublist a.leaves ∧ (a.Open → a.exposed = a.leaves) := by
  rw [getRecord_eq named hpre made, ← valuesOfFirst_eq_none_iff memory]
  refine ⟨fun ℓ hfirst => ?_, ?_, ?_, exposed_sublist a, exposed_eq_leaves⟩
  · rw [valuesOfFirst_of_first hfirst]
  · cases valuesOfFirst memory T a.exposed <;> simp
  · cases valuesOfFirst memory T a.exposed with
    | none =>
      intro f hf
      cases hf
      rfl
    | some values => exact nofun

def nested : RecordAction :=
  .group 0 [.every .everySecond (.group 1 [.leaf 2 (.quantity .cost) .always,
    .leaf 3 (.quantity .iteration) .always]),
    .every .everyThird (.every .everySecond (.leaf 4 (.quantity .stepsize) .always)),
    .group 5 [.leaf 6 (.quantity .iterate) .always, .leaf 7 (.quantity .iteration) .always]]

theorem lookup_law_nested :
    ∃ t, solve 3 line twice [.plain, .record nested] counting origin = .ok () t ∧
      (t.memory.get 3).recorded.toList.length = 1 ∧ (t.memory.get 7).recorded.toList.length = 2 ∧
      getRecord t.memory (.text "Iteration") ([.plain] ++ .record nested :: [] : List (Decorator Unit
        Float)) = .ok (t.memory.get 7).recorded.toList := by
  obtain ⟨_, t, ht, hshort, hlong⟩ :
      ∃ b t, solve 3 line twice [.plain, .record nested] counting origin = .ok b t ∧
        (t.memory.get 3).recorded.toList.length = 1 ∧
        (t.memory.get 7).recorded.toList.length = 2 := by
    decide +kernel
  have first : First .iteration nested.exposed ⟨7, .quantity .iteration, .always, []⟩ :=
    ⟨⟨[_, _], [], rfl, by decide⟩, rfl⟩
  have made : makeRecord 8 (.action nested) =
      (.ok (.record nested, 8) : Answer Float (Decorator Unit Float × Nat)) := rfl
  exact ⟨t, ht, hshort, hlong, (lookup_law (.name .iteration) rfl made).1 _ first⟩

def veiled : RecordAction :=
  .group 0 [.every .everySecond (.group 1 [.leaf 2 (.quantity .iteration) .always])]

/-- The only leaf of a tree has recorded its quantity, and the lookup says that nothing is
recorded. -/
theorem not_found_below_wrapper :
    ∃ t, solve 3 line twice [.record veiled] counting origin = .ok () t ∧
      veiled.Distinct ∧ First .iteration veiled.leaves
        ⟨2, .quantity .iteration, .always, [.everySecond]⟩ ∧
      (t.memory.get 2).recorded.toList.length = 1 ∧
      getRecord t.memory (.token .iteration) ([.record veiled] : List (Decorator Unit Float)) =
        .error (.misuse (.nothingRecorded (.token .iteration))) := by
  obtain ⟨_, t, ht, hrecorded⟩ :
      ∃ b t, solve 3 line twice [.record veiled] counting origin = .ok b t ∧
        (t.memory.get 2).recorded.toList.length = 1 := by
    decide +kernel
  exact ⟨t, ht, by decide, ⟨⟨[], [], rfl, nofun⟩, rfl⟩, hrecorded, rfl⟩

end Decorator
end Geodescent
