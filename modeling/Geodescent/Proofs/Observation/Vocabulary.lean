import Geodescent.Decorator
import Mathlib.Tactic.ByContra

/-! What token lists mean: which entries they may hold, which one a fault is about, and the action
that each entry becomes at the pace of the last number before it. `vocabulary_law` says so for the
reading itself and for the factories of output and records. -/
namespace Geodescent.TokenList
variable {α β γ : Type}

/-- A value names a quantity: it is the token itself or its name. -/
inductive Names : Datum α → Token → Prop
  | token (t : Token) : Names (.token t) t
  | name (t : Token) : Names (.text t.text) t

/-- Entries that no list may hold. -/
inductive Invalid (literals : Bool) : TokenEntry α β → Prop
  | truth (b : Bool) : Invalid literals (.value (.truth b))
  | number {n : Int} (small : n < 1) : Invalid literals (.value (.whole n))
  | unknown {d : Datum α} (noTruth : ∀ b, d ≠ .truth b) (noNumber : ∀ n, d ≠ .whole n)
      (unnamed : ∀ t, ¬ Names d t) (noText : literals = true → ∀ text, d ≠ .text text) :
      Invalid literals (.value d)

/-- An action that acts in every iteration that a number divides. -/
structure Paced (n : Int) (c : Cadence) : Prop where
  every : (c.every : Int) = n
  running : c.atStop = false

/-- What an entry asks for at a pace. -/
inductive Means (literals : Bool) (pace : Int) : TokenEntry α β → Piece β → Prop
  | ready (a : β) : Means literals pace (.action a) (.action a)
  | stop {d : Datum α} (named : Names d .stop) :
      Means literals pace (.value d) (.token .stop .onlyAtStop)
  | token {d : Datum α} {t : Token} {c : Cadence} (named : Names d t) (other : t ≠ .stop)
      (paced : Paced pace c) : Means literals pace (.value d) (.token t c)
  | literal {text : String} {c : Cadence} (allowed : literals = true) (free : ∀ t : Token, text ≠ t.text)
      (paced : Paced pace c) : Means literals pace (.value (.text text)) (.literal text c)

def number? : TokenEntry α β → Option Int
  | .value (.whole n) => some n
  | _ => none

def lastNumber? (es : List (TokenEntry α β)) : Option Int := (es.filterMap number?).getLast?

/-- The entries that become actions. -/
def spoken (es : List (TokenEntry α β)) : List (TokenEntry α β) :=
  es.filter fun e => (number? e).isNone

def blame : Datum α → Misuse α
  | .truth b => .invalidToken (.truth b)
  | .whole n => .badCadenceToken n
  | d => .unknownToken d

def actions (literals : Bool) (make : Nat → Piece β → γ) (next : Nat)
    (es : List (TokenEntry α β)) : Answer α (List γ) :=
  (parse literals .always es).map fun pieces => pieces.mapIdx fun i p => make (next + i) p

/-- One action for each entry that is no number, in order, at the pace of the last number before
it. -/
structure Translated (literals : Bool) (make : Nat → Piece β → γ) (next : Nat) (pace : Int)
    (es : List (TokenEntry α β)) (made : List γ) : Prop where
  count : made.length = (spoken es).length
  meant : ∀ before e after, es = before ++ e :: after → number? e = none →
    ∃ p : Piece β, Means literals ((lastNumber? before).getD pace) e p ∧
      made[(spoken before).length]? = some (make (next + (spoken before).length) p)

/-- The meaning of a list: it is refused for its first invalid entry, or else translated. -/
structure Vocabulary (literals : Bool) (make : Nat → Piece β → γ) (next : Nat)
    (es : List (TokenEntry α β)) (answer : Answer α (List γ)) : Prop where
  refused_iff : (∃ f, answer = .error f) ↔ ∃ e ∈ es, Invalid literals e
  blamed : ∀ before d after, es = before ++ .value d :: after →
    (∀ e ∈ before, ¬ Invalid literals e) → Invalid literals (.value d : TokenEntry α β) →
    answer = .error (.misuse (blame d)) ∧
      (blame d).parameter = "tokens" ∧ (blame d).received = d
  translated : ∀ made, answer = .ok made → Translated literals make next 1 es made

/-- A list that sets the pace that another one ends with. -/
def carried (es : List (TokenEntry α β)) : List (TokenEntry α β) :=
  (lastNumber? es).toList.map fun n => .value (.whole n)

variable {literals : Bool} {d : Datum α} {t : Token} {c c' : Cadence} {n pace : Int}
  {e : TokenEntry α β} {es es₁ es₂ before after : List (TokenEntry α β)} {p : Piece β}
  {make : Nat → Piece β → γ} {next : Nat} {made : List γ}

section Values

theorem symbol?_eq_some_iff : symbol? d = some t ↔ Names d t := by
  constructor
  · intro h
    cases d with
    | token u => cases h; exact .token t
    | text s =>
      obtain rfl := Token.ofText?_eq_some h
      exact .name t
    | none | truth | whole | real | list | array | stream | table | thing => cases h
  · rintro (_ | _)
    · rfl
    · exact symbol?_text t

theorem symbol?_eq_none_iff : symbol? d = none ↔ ∀ t, ¬ Names d t := by
  simp only [← symbol?_eq_some_iff, Option.eq_none_iff_forall_ne_some, ne_eq]

theorem Names.unique {u : Token} (h : Names d t) (h' : Names d u) : t = u :=
  Option.some.inj ((symbol?_eq_some_iff.mpr h).symm.trans (symbol?_eq_some_iff.mpr h'))

theorem parameter_blame (d : Datum α) : (blame d).parameter = "tokens" := by cases d <;> rfl

theorem received_blame (d : Datum α) : (blame d).received = d := by cases d <;> rfl

end Values

section Numbers

@[simp] theorem number?_whole (n : Int) :
    number? (.value (.whole n) : TokenEntry α β) = some n := rfl

theorem lastNumber?_number (n : Int) (es : List (TokenEntry α β)) :
    lastNumber? (.value (.whole n) :: es) = some ((lastNumber? es).getD n) := by
  simp [lastNumber?, List.getLast?_cons]

theorem lastNumber?_spoken (h : number? e = none) (es : List (TokenEntry α β)) :
    lastNumber? (e :: es) = lastNumber? es := by
  simp [lastNumber?, h]

theorem spoken_number (n : Int) (es : List (TokenEntry α β)) :
    spoken (.value (.whole n) :: es) = spoken es := by
  simp [spoken]

theorem spoken_cons (h : number? e = none) (es : List (TokenEntry α β)) :
    spoken (e :: es) = e :: spoken es := by
  simp [spoken, h]

theorem Means.number?_eq_none (m : Means literals pace e p) : number? e = none := by
  cases m with
  | ready => rfl
  | stop named => cases named <;> rfl
  | token named => cases named <;> rfl
  | literal => rfl

theorem Paced.unique (h : Paced n c) (h' : Paced n c') : c = c' := by
  obtain ⟨every, atStop, _⟩ := c
  obtain ⟨every', atStop', _⟩ := c'
  obtain rfl : every = every' := Int.ofNat.inj (h.every.trans h'.every.symm)
  obtain rfl : atStop = atStop' := h.running.trans h'.running.symm
  rfl

theorem exists_paced (h : 1 ≤ n) : ∃ c, Paced n c :=
  ⟨⟨n.toNat, false, by omega⟩, Int.toNat_of_nonneg (by omega), rfl⟩

end Numbers

section Entries

theorem piece_named (literals : Bool) (c : Cadence) (named : Names d t) :
    piece literals c d = .ok (.token t (cadenceOf t c) : Piece β) := by
  unfold piece
  rw [symbol?_eq_some_iff.mpr named]

theorem piece_free {text : String} (free : ∀ t : Token, text ≠ t.text) (c : Cadence) :
    piece true c (.text text : Datum α) = .ok (.literal text c : Piece β) := by
  have unnamed : symbol? (.text text : Datum α) = none := by
    refine symbol?_eq_none_iff.mpr fun t named => ?_
    cases named
    exact free t rfl
  unfold piece
  rw [unnamed]
  rfl

theorem piece_unknown (unnamed : ∀ t, ¬ Names d t)
    (noText : literals = true → ∀ text, d ≠ .text text) (c : Cadence) :
    piece literals c d = (.error (.misuse (.unknownToken d)) : Answer α (Piece β)) := by
  unfold piece
  rw [symbol?_eq_none_iff.mpr unnamed]
  dsimp only
  split
  · rename_i text
    cases literals with
    | true => exact absurd rfl (noText rfl text)
    | false => rfl
  · rfl

theorem parse_value (noTruth : ∀ b, d ≠ .truth b) (noNumber : ∀ n, d ≠ .whole n)
    (literals : Bool) (c : Cadence) (es : List (TokenEntry α β)) :
    parse literals c (.value d :: es) =
      (piece literals c d).bind fun first => (parse literals c es).map (first :: ·) := by
  cases d with
  | truth b => exact absurd rfl (noTruth b)
  | whole n => exact absurd rfl (noNumber n)
  | none | real | text | list | token | array | stream | table | thing =>
    simp only [parse]
    cases piece literals c _ <;> cases parse literals c es <;> rfl

theorem Names.noTruth (h : Names d t) (b : Bool) : d ≠ .truth b := by cases h <;> nofun

theorem Names.noNumber (h : Names d t) (n : Int) : d ≠ .whole n := by cases h <;> nofun

theorem parse_invalid (bad : Invalid literals (.value d : TokenEntry α β)) (c : Cadence)
    (es : List (TokenEntry α β)) :
    parse literals c (.value d :: es) = .error (.misuse (blame d)) := by
  cases bad with
  | truth b => rfl
  | @number n small =>
    have h : ¬ 0 < n.toNat := by omega
    simp only [parse, dif_neg h, blame]
  | unknown noTruth noNumber unnamed noText =>
    rw [parse_value noTruth noNumber, piece_unknown unnamed noText]
    cases d with
    | truth b => exact absurd rfl (noTruth b)
    | whole n => exact absurd rfl (noNumber n)
    | none | real | text | list | token | array | stream | table | thing => rfl

theorem parse_number (paced : Paced n c') (c : Cadence) (es : List (TokenEntry α β)) :
    parse literals c (.value (.whole n) :: es) = parse literals c' es := by
  have pos : 0 < n.toNat := by
    have := paced.every
    have := c'.every_pos
    omega
  have same : c' = ⟨n.toNat, false, pos⟩ :=
    paced.unique ⟨Int.toNat_of_nonneg (by omega), rfl⟩
  simp only [parse, dif_pos pos, same]

theorem parse_means (paced : Paced pace c) (m : Means literals pace e p)
    (es : List (TokenEntry α β)) :
    parse literals c (e :: es) = (parse literals c es).map (p :: ·) := by
  cases m with
  | ready a =>
    simp only [parse]
    cases parse literals c es <;> rfl
  | stop named =>
    rw [parse_value named.noTruth named.noNumber, piece_named _ _ named]
    rfl
  | token named other paced' =>
    rw [parse_value named.noTruth named.noNumber, piece_named _ _ named, cadenceOf,
      if_neg other, paced.unique paced']
    rfl
  | literal allowed free paced' =>
    rw [parse_value (by nofun) (by nofun), allowed, piece_free free, paced.unique paced']
    rfl

theorem sorted (literals : Bool) (paced : Paced pace c) (e : TokenEntry α β) :
    (∃ d, e = .value d ∧ Invalid literals e) ∨ (∃ n, 1 ≤ n ∧ e = .value (.whole n)) ∨
      ∃ p, Means literals pace e p := by
  cases e with
  | action a => exact .inr (.inr ⟨_, .ready a⟩)
  | value d =>
    -- names come first: a text that is one is never taken for free text
    cases hs : symbol? d with
    | some t =>
      have named := symbol?_eq_some_iff.mp hs
      by_cases ht : t = .stop
      · exact .inr (.inr ⟨_, .stop (ht ▸ named)⟩)
      · exact .inr (.inr ⟨_, .token named ht paced⟩)
    | none =>
      have unnamed := symbol?_eq_none_iff.mp hs
      cases d with
      | truth b => exact .inl ⟨_, rfl, .truth b⟩
      | whole n =>
        by_cases small : n < 1
        · exact .inl ⟨_, rfl, .number small⟩
        · exact .inr (.inl ⟨n, by omega, rfl⟩)
      | text s =>
        cases literals with
        | true =>
          have free (t : Token) : s ≠ t.text := by
            rintro rfl
            exact unnamed t (.name t)
          exact .inr (.inr ⟨_, .literal rfl free paced⟩)
        | false => exact .inl ⟨_, rfl, .unknown (by nofun) (by nofun) unnamed (by nofun)⟩
      | token t => exact absurd (.token t) (unnamed t)
      | none | real | list | array | stream | table | thing =>
        exact .inl ⟨_, rfl, .unknown (by nofun) (by nofun) unnamed (by nofun)⟩

end Entries

section Translated

theorem Translated.nil (make : Nat → Piece β → γ) (next : Nat) (pace : Int) :
    Translated literals make next pace ([] : List (TokenEntry α β)) [] :=
  ⟨rfl, fun before e after h => by simp at h⟩

theorem Translated.number (h : Translated literals make next n es made) :
    Translated literals make next pace (.value (.whole n) :: es) made where
  count := by rw [spoken_number, h.count]
  meant before e after split speaks := by
    cases before with
    | nil =>
      -- the entry in question is no number, so it is not the first one
      cases split
      cases speaks
    | cons first before =>
      obtain ⟨rfl, tails⟩ := List.cons_eq_cons.mp split
      have := h.meant before e after tails speaks
      rwa [lastNumber?_number, spoken_number]

theorem Translated.cons (m : Means literals pace e p)
    (h : Translated literals make (next + 1) pace es made) :
    Translated literals make next pace (e :: es) (make next p :: made) where
  count := by rw [spoken_cons m.number?_eq_none, List.length_cons, h.count, List.length_cons]
  meant before e' after split speaks := by
    cases before with
    | nil =>
      cases split
      exact ⟨p, m, rfl⟩
    | cons first before =>
      obtain ⟨rfl, tails⟩ := List.cons_eq_cons.mp split
      obtain ⟨q, mq, found⟩ := h.meant before e' after tails speaks
      have silent := m.number?_eq_none
      refine ⟨q, ?_, ?_⟩
      · rwa [lastNumber?_spoken silent]
      · rw [spoken_cons silent, List.length_cons, List.getElem?_cons_succ, found]
        congr 2
        omega

end Translated

section Reading

theorem parse_blames (paced : Paced pace c) (valid : ∀ e ∈ before, ¬ Invalid literals e)
    (bad : Invalid literals (.value d : TokenEntry α β)) :
    parse literals c (before ++ .value d :: after) = .error (.misuse (blame d)) := by
  -- for every pace, since the numbers before the fault change it
  induction before generalizing c pace with
  | nil => exact parse_invalid bad c after
  | cons e before ih =>
    obtain ⟨valid, others⟩ := List.forall_mem_cons.mp valid
    rw [List.cons_append]
    obtain ⟨_, -, invalid⟩ | ⟨n, large, rfl⟩ | ⟨p, m⟩ := sorted literals paced e
    · exact absurd invalid valid
    · obtain ⟨c', paced'⟩ := exists_paced large
      rw [parse_number paced', ih paced' others]
    · rw [parse_means paced m, ih paced others]
      rfl

theorem parse_translates (paced : Paced pace c) (valid : ∀ e ∈ es, ¬ Invalid literals e)
    (make : Nat → Piece β → γ) (next : Nat) :
    ∃ pieces, parse literals c es = .ok pieces ∧
      Translated literals make next pace es (pieces.mapIdx fun i p => make (next + i) p) := by
  induction es generalizing c pace next with
  | nil => exact ⟨[], rfl, .nil make next pace⟩
  | cons e es ih =>
    obtain ⟨valid, others⟩ := List.forall_mem_cons.mp valid
    obtain ⟨_, -, invalid⟩ | ⟨n, large, rfl⟩ | ⟨p, m⟩ := sorted literals paced e
    · exact absurd invalid valid
    · obtain ⟨c', paced'⟩ := exists_paced large
      obtain ⟨pieces, read, translated⟩ := ih paced' others next
      exact ⟨pieces, (parse_number paced' c es).trans read, translated.number⟩
    · obtain ⟨pieces, read, translated⟩ := ih paced others (next + 1)
      refine ⟨p :: pieces, by rw [parse_means paced m, read]; rfl, ?_⟩
      rw [List.mapIdx_cons]
      simpa only [Nat.add_zero, Nat.add_assoc, Nat.add_comm 1] using translated.cons m

theorem first_invalid (h : ∃ e ∈ es, Invalid literals e) :
    ∃ before d after, es = before ++ .value d :: after ∧
      (∀ e ∈ before, ¬ Invalid literals e) ∧
      Invalid literals (.value d : TokenEntry α β) := by
  induction es with
  | nil => simp at h
  | cons e es ih =>
    by_cases bad : Invalid literals e
    · cases e with
      | action a => cases bad
      | value d => exact ⟨[], d, es, rfl, by simp, bad⟩
    · obtain ⟨e', mem, bad'⟩ := h
      obtain rfl | mem := List.mem_cons.mp mem
      · exact absurd bad' bad
      obtain ⟨before, d, after, rfl, valid, invalid⟩ := ih ⟨e', mem, bad'⟩
      exact ⟨e :: before, d, after, rfl, List.forall_mem_cons.mpr ⟨bad, valid⟩, invalid⟩

theorem paced_always : Paced 1 .always := ⟨rfl, rfl⟩

theorem actions_vocabulary (literals : Bool) (make : Nat → Piece β → γ) (next : Nat)
    (es : List (TokenEntry α β)) :
    Vocabulary literals make next es (actions literals make next es) := by
  have blamed {before after : List (TokenEntry α β)} {d : Datum α}
      (valid : ∀ e ∈ before, ¬ Invalid literals e)
      (bad : Invalid literals (.value d : TokenEntry α β)) :
      actions literals make next (before ++ .value d :: after) = .error (.misuse (blame d)) := by
    rw [actions, parse_blames paced_always valid bad]
    rfl
  refine ⟨⟨fun ⟨f, failed⟩ => ?_, fun invalid => ?_⟩, ?_, fun made succeeded => ?_⟩
  · -- without an invalid entry the list would have been read
    by_contra none
    obtain ⟨pieces, read, -⟩ := parse_translates paced_always
      (fun e mem bad => none ⟨e, mem, bad⟩) make next
    rw [actions, read] at failed
    cases failed
  · obtain ⟨before, d, after, rfl, valid, bad⟩ := first_invalid invalid
    exact ⟨_, blamed valid bad⟩
  · rintro before d after rfl valid bad
    exact ⟨blamed valid bad, parameter_blame d, received_blame d⟩
  · have valid (e) (mem : e ∈ es) : ¬ Invalid literals e := by
      intro bad
      obtain ⟨before, d, after, rfl, valid, bad⟩ := first_invalid ⟨e, mem, bad⟩
      rw [blamed valid bad] at succeeded
      cases succeeded
    obtain ⟨pieces, read, translated⟩ := parse_translates paced_always valid make next
    rw [actions, read] at succeeded
    cases succeeded
    exact translated

end Reading

section Append

theorem carried_number (n : Int) (es : List (TokenEntry α β)) :
    carried (.value (.whole n) :: es) = [.value (.whole ((lastNumber? es).getD n))] := by
  rw [carried, lastNumber?_number]
  rfl

theorem carried_spoken (h : number? e = none) (es : List (TokenEntry α β)) :
    carried (e :: es) = carried es := by
  rw [carried, lastNumber?_spoken h, carried]

theorem parse_carried_number (paced : Paced n c') (c : Cadence) (es es₂ : List (TokenEntry α β)) :
    parse literals c (carried (.value (.whole n) :: es) ++ es₂) =
      parse literals c' (carried es ++ es₂) := by
  rw [carried_number, carried]
  cases lastNumber? es with
  | none => exact parse_number paced c es₂
  | some m => rfl

theorem parse_append (paced : Paced pace c) :
    parse literals c (es₁ ++ es₂) = (parse literals c es₁).bind fun first =>
      (parse literals c (carried es₁ ++ es₂)).map (first ++ ·) := by
  induction es₁ generalizing c pace with
  | nil =>
    change parse literals c es₂ = (parse literals c es₂).map ([] ++ ·)
    cases parse literals c es₂ <;> rfl
  | cons e es ih =>
    rw [List.cons_append]
    obtain ⟨d, rfl, bad⟩ | ⟨n, large, rfl⟩ | ⟨p, m⟩ := sorted literals paced e
    · -- the second list is not read at all
      rw [parse_invalid bad, parse_invalid bad]
      rfl
    · obtain ⟨c', paced'⟩ := exists_paced large
      rw [parse_number paced', parse_number paced', ih paced', parse_carried_number paced']
    · rw [parse_means paced m, parse_means paced m, ih paced, carried_spoken m.number?_eq_none]
      cases parse literals c es with
      | error f => rfl
      | ok first => cases parse literals c (carried es ++ es₂) <;> rfl

theorem actions_append (literals : Bool) (make : Nat → Piece β → γ) (next : Nat)
    (es₁ es₂ : List (TokenEntry α β)) :
    actions literals make next (es₁ ++ es₂) = (do
      let first ← actions literals make next es₁
      let rest ← actions literals make (next + first.length) (carried es₁ ++ es₂)
      .ok (first ++ rest)) := by
  unfold actions
  rw [parse_append paced_always]
  cases parse literals .always es₁ with
  | error f => rfl
  | ok first =>
    cases parse literals .always (carried es₁ ++ es₂) with
    | error f => rfl
    | ok rest =>
      refine congrArg Except.ok (List.mapIdx_append.trans ?_)
      simp only [List.length_mapIdx, Nat.add_assoc, Nat.add_comm first.length]

theorem actions_plain (literals : Bool) (next : Nat) (es : List (TokenEntry α β)) :
    actions literals (fun _ p => p) next es = parse literals .always es := by
  unfold actions
  cases parse literals .always es with
  | error f => rfl
  | ok pieces => exact congrArg Except.ok (List.ext_getElem (by simp) (by simp))

end Append

/-- A list means what its entries mean, for output and for records: it is refused for its first
invalid entry, or else every entry that is no number becomes one action. A name or a token alone is a
list of one, and a list in two parts means what the parts mean, where the second one starts at the
last number of the first. -/
theorem vocabulary_law {α β γ ε : Type} (literals : Bool) (make : Nat → Piece β → γ) (next : Nat)
    (outlet : Option String) :
    (∀ es : List (TokenEntry α β),
      Vocabulary literals make next es (actions literals make next es)) ∧
    (∀ es₁ es₂ : List (TokenEntry α β), actions literals make next (es₁ ++ es₂) = (do
      let first ← actions literals make next es₁
      let rest ← actions literals make (next + first.length) (carried es₁ ++ es₂)
      .ok (first ++ rest))) ∧
    (∀ es : List (TokenEntry α β),
      parse literals .always es = actions literals (fun _ p => p) next es) ∧
    (∀ es : List (TokenEntry α DebugAction), DebugAction.ofTokens outlet next es =
      (actions true (DebugAction.ofPiece outlet) next es).map fun made =>
        (.group made, next + made.length)) ∧
    (∀ es : List (TokenEntry α RecordAction), RecordAction.ofTokens next es =
      (actions false RecordAction.ofPiece (next + 1) es).map fun made =>
        (.group next made, next + 1 + made.length)) ∧
    (∀ d : Datum α, (∃ t, d = .token t) ∨ (∃ s, d = .text s) →
      (Decorator.makeDebug outlet next (.value d) : Answer α (Decorator ε α × Nat)) =
          Decorator.makeDebug outlet next (.list [.value d]) ∧
        (Decorator.makeRecord next (.value d) : Answer α (Decorator ε α × Nat)) =
          Decorator.makeRecord next (.list [.value d])) := by
  refine ⟨actions_vocabulary literals make next, actions_append literals make next,
    fun es => (actions_plain literals next es).symm, fun es => ?_, fun es => ?_, ?_⟩
  · unfold DebugAction.ofTokens actions
    cases parse true .always es with
    | error f => rfl
    | ok pieces => simp [Except.map, bind, Except.bind, DebugAction.ofPieces]
  · unfold RecordAction.ofTokens actions
    cases parse false .always es with
    | error f => rfl
    | ok pieces => simp [Except.map, bind, Except.bind]
  · rintro d (⟨t, rfl⟩ | ⟨s, rfl⟩) <;> exact ⟨rfl, rfl⟩

example (a : DebugAction) :
    (parse true .always [.value (.text "Cost"), .value (.whole 10), .value (.text "x"),
      .value (.token .stop), .action a, .value (.text "\n")] : Answer Int _) =
    .ok [.token .cost .always, .token .iterate ⟨10, false, by decide⟩, .token .stop .onlyAtStop,
      .action a, .literal "\n" ⟨10, false, by decide⟩] := rfl

end Geodescent.TokenList
