import Geodescent.Part

/-! Computations that list what they do. An entry stays in the list when a later part fails, and
leaving the list out gives the computation itself. -/
namespace Geodescent

instance decidableOk {φ σ β : Type} {P : β → σ → Prop} [∀ b t, Decidable (P b t)]
    (r : EStateM.Result φ σ β) : Decidable (∃ b t, r = .ok b t ∧ P b t) :=
  match r with
  | .ok b t => decidable_of_iff (P b t)
    ⟨fun h => ⟨b, t, rfl, h⟩, fun ⟨_, _, h, hp⟩ => by cases h; exact hp⟩
  | .error _ _ => .isFalse fun ⟨_, _, h, _⟩ => by cases h

instance decidableExceptOk {φ β : Type} {P : β → Prop} [DecidablePred P] (a : Except φ β) :
    Decidable (∃ b, a = .ok b ∧ P b) :=
  match a with
  | .ok b => decidable_of_iff (P b) ⟨fun h => ⟨b, rfl, h⟩, fun ⟨_, h, hp⟩ => by cases h; exact hp⟩
  | .error _ => .isFalse fun ⟨_, h, _⟩ => by cases h

instance decidableError {φ σ β : Type} {P : φ → σ → Prop} [∀ e t, Decidable (P e t)]
    (r : EStateM.Result φ σ β) : Decidable (∃ e t, r = .error e t ∧ P e t) :=
  match r with
  | .error e t => decidable_of_iff (P e t)
    ⟨fun h => ⟨e, t, rfl, h⟩, fun ⟨_, _, h, hp⟩ => by cases h; exact hp⟩
  | .ok _ _ => .isFalse fun ⟨_, _, h, _⟩ => by cases h

def left {φ σ β : Type} : EStateM.Result φ σ β → σ
  | .ok _ t => t
  | .error _ t => t

theorem left_run {σ τ φ β : Type} (part : Part σ τ) (m : EStateM φ τ β) (s : σ) :
    left (part.run m s) = part.set (left (m (part.get s))) s := by
  rcases h : m (part.get s) with ⟨b, t⟩ | ⟨e, t⟩
  · rw [Part.run_of_ok part h]
    rfl
  · rw [Part.run_of_error part h]
    rfl

theorem left_bind_pure {σ φ β γ : Type} (m : EStateM φ σ β) (c : γ) (s : σ) :
    left ((m >>= fun _ => pure c) s) = left (m s) := by
  rcases h : m s with ⟨b, t⟩ | ⟨e, t⟩
  · rw [bind_of_ok h]
    rfl
  · rw [bind_of_error h]
    rfl

theorem left_run_pure {σ τ φ β γ : Type} (part : Part σ τ) (m : EStateM φ τ β) (c : γ) (s : σ) :
    left ((part.run m >>= fun _ => pure c) s) = part.set (left (m (part.get s))) s := by
  rw [left_bind_pure, left_run]

/-- A computation together with the entries it makes, oldest first. -/
def Scribe (η φ σ β : Type) : Type := σ → List η × EStateM.Result φ σ β

namespace Scribe
variable {η φ σ β γ : Type}

instance : Monad (Scribe η φ σ) where
  pure b := fun s => ([], .ok b s)
  bind m k := fun s =>
    match m s with
    | (es, .ok b t) => (es ++ (k b t).1, (k b t).2)
    | (es, .error e t) => (es, .error e t)

def outcome (w : Scribe η φ σ β) : EStateM φ σ β := fun s => (w s).2

def tacit (m : EStateM φ σ β) : Scribe η φ σ β := fun s => ([], m s)

/-- A computation that makes one entry, of where it began and how it ended. -/
def entering (entry : σ → EStateM.Result φ σ β → η) (m : EStateM φ σ β) : Scribe η φ σ β :=
  fun s => ([entry s (m s)], m s)

def within {τ : Type} (part : Part σ τ) (w : Scribe η φ τ β) : Scribe η φ σ β := fun s =>
  ((w (part.get s)).1, part.run w.outcome s)

theorem pure_apply (b : β) (s : σ) : (pure b : Scribe η φ σ β) s = ([], .ok b s) := rfl

theorem bind_of_ok {m : Scribe η φ σ β} {k : β → Scribe η φ σ γ} {s t : σ} {b : β} {es : List η}
    (h : m s = (es, .ok b t)) : (m >>= k) s = (es ++ (k b t).1, (k b t).2) := by
  change (match m s with | (es, .ok b t) => _ | (es, .error e t) => _) = _
  rw [h]

theorem bind_of_error {m : Scribe η φ σ β} {k : β → Scribe η φ σ γ} {s t : σ} {e : φ} {es : List η}
    (h : m s = (es, .error e t)) : (m >>= k) s = (es, .error e t) := by
  change (match m s with | (es, .ok b t) => _ | (es, .error e t) => _) = _
  rw [h]

theorem bind_bind {δ : Type} (w : Scribe η φ σ β) (k : β → Scribe η φ σ γ)
    (l : γ → Scribe η φ σ δ) : w >>= k >>= l = w >>= fun b => k b >>= l := by
  funext s
  rcases h : w s with ⟨es, ⟨b, t⟩ | ⟨e, t⟩⟩
  · rw [bind_of_ok h]
    rcases hk : k b t with ⟨fs, ⟨c, u⟩ | ⟨e, u⟩⟩
    · have hwk : (w >>= k) s = (es ++ fs, .ok c u) := by rw [bind_of_ok h, hk]
      rw [bind_of_ok hwk, bind_of_ok hk, List.append_assoc]
    · have hwk : (w >>= k) s = (es ++ fs, .error e u) := by rw [bind_of_ok h, hk]
      rw [bind_of_error hwk, bind_of_error hk]
  · have hwk : (w >>= k) s = (es, .error e t) := bind_of_error h
    rw [bind_of_error hwk, bind_of_error h]

theorem mem_bind_iff {m : Scribe η φ σ β} {k : β → Scribe η φ σ γ} {s : σ} {e : η} :
    e ∈ ((m >>= k) s).1 ↔ e ∈ (m s).1 ∨ ∃ b t, (m s).2 = .ok b t ∧ e ∈ (k b t).1 := by
  rcases hm : m s with ⟨es, ⟨b, t⟩ | ⟨f, t⟩⟩
  · rw [bind_of_ok hm, List.mem_append]
    exact or_congr_right ⟨fun he => ⟨b, t, rfl, he⟩, fun ⟨_, _, h, he⟩ => by cases h; exact he⟩
  · rw [bind_of_error hm]
    exact ⟨.inl, fun h => h.resolve_right fun ⟨_, _, h, _⟩ => by cases h⟩

theorem tacit_bind_of_ok {m : EStateM φ σ β} {k : β → Scribe η φ σ γ} {s t : σ} {b : β}
    (h : m s = .ok b t) : (tacit m >>= k) s = k b t := by
  have hm : (tacit m : Scribe η φ σ β) s = ([], .ok b t) := Prod.ext rfl h
  rw [bind_of_ok hm, List.nil_append]

theorem tacit_get_bind (k : σ → Scribe η φ σ β) (s : σ) : (tacit get >>= k) s = k s s :=
  tacit_bind_of_ok rfl

theorem tacit_bind_of_error {m : EStateM φ σ β} {k : β → Scribe η φ σ γ} {s t : σ} {e : φ}
    (h : m s = .error e t) : (tacit m >>= k) s = ([], .error e t) := by
  have hm : (tacit m : Scribe η φ σ β) s = ([], .error e t) := Prod.ext rfl h
  exact bind_of_error hm

theorem bind_eq_ok_iff {m : Scribe η φ σ β} {k : β → Scribe η φ σ γ} {s u : σ} {c : γ}
    {es : List η} : (m >>= k) s = (es, .ok c u) ↔
      ∃ b t fs gs, m s = (fs, .ok b t) ∧ k b t = (gs, .ok c u) ∧ es = fs ++ gs := by
  constructor
  · intro h
    rcases hm : m s with ⟨fs, ⟨b, t⟩ | ⟨e, t⟩⟩
    · rw [bind_of_ok hm] at h
      have hk : k b t = ((k b t).1, .ok c u) := by rw [← (Prod.mk.inj h).2]
      exact ⟨b, t, fs, _, rfl, hk, (Prod.mk.inj h).1.symm⟩
    · rw [bind_of_error hm] at h
      cases (Prod.mk.inj h).2
  · rintro ⟨b, t, fs, gs, hm, hk, rfl⟩
    rw [bind_of_ok hm, hk]

theorem bind_eq_error_iff {m : Scribe η φ σ β} {k : β → Scribe η φ σ γ} {s u : σ} {e : φ}
    {es : List η} : (m >>= k) s = (es, .error e u) ↔
      m s = (es, .error e u) ∨
        ∃ b t fs gs, m s = (fs, .ok b t) ∧ k b t = (gs, .error e u) ∧ es = fs ++ gs := by
  constructor
  · intro h
    rcases hm : m s with ⟨fs, ⟨b, t⟩ | ⟨e', t⟩⟩
    · rw [bind_of_ok hm] at h
      have hk : k b t = ((k b t).1, .error e u) := by rw [← (Prod.mk.inj h).2]
      exact .inr ⟨b, t, fs, _, rfl, hk, (Prod.mk.inj h).1.symm⟩
    · rw [bind_of_error hm] at h
      obtain ⟨rfl, he⟩ := Prod.mk.inj h
      cases he
      exact .inl rfl
  · rintro (hm | ⟨b, t, fs, gs, hm, hk, rfl⟩)
    · exact bind_of_error hm
    · rw [bind_of_ok hm, hk]

theorem tacit_bind_eq_ok_iff {m : EStateM φ σ β} {k : β → Scribe η φ σ γ} {s u : σ} {c : γ}
    {es : List η} :
    (tacit m >>= k) s = (es, .ok c u) ↔ ∃ b t, m s = .ok b t ∧ k b t = (es, .ok c u) := by
  constructor
  · intro h
    rcases hm : m s with ⟨b, t⟩ | ⟨e, t⟩
    · rw [tacit_bind_of_ok hm] at h
      exact ⟨b, t, rfl, h⟩
    · rw [tacit_bind_of_error hm] at h
      cases (Prod.mk.inj h).2
  · rintro ⟨b, t, hm, hk⟩
    rw [tacit_bind_of_ok hm, hk]

theorem tacit_bind_eq_error_iff {m : EStateM φ σ β} {k : β → Scribe η φ σ γ} {s u : σ} {e : φ}
    {es : List η} : (tacit m >>= k) s = (es, .error e u) ↔
      (m s = .error e u ∧ es = []) ∨ ∃ b t, m s = .ok b t ∧ k b t = (es, .error e u) := by
  constructor
  · intro h
    rcases hm : m s with ⟨b, t⟩ | ⟨e', t⟩
    · rw [tacit_bind_of_ok hm] at h
      exact .inr ⟨b, t, rfl, h⟩
    · rw [tacit_bind_of_error hm] at h
      cases h
      exact .inl ⟨rfl, rfl⟩
  · rintro (⟨hm, rfl⟩ | ⟨b, t, hm, hk⟩)
    · exact tacit_bind_of_error hm
    · rw [tacit_bind_of_ok hm, hk]

theorem pure_eq_ok_iff {b c : β} {s t : σ} {es : List η} :
    (pure b : Scribe η φ σ β) s = (es, .ok c t) ↔ c = b ∧ t = s ∧ es = [] := by
  rw [pure_apply]
  exact ⟨fun h => by cases h; exact ⟨rfl, rfl, rfl⟩, fun ⟨hc, ht, he⟩ => by rw [hc, ht, he]⟩

theorem tacit_eq_ok_iff {m : EStateM φ σ β} {s t : σ} {b : β} {es : List η} :
    (tacit m : Scribe η φ σ β) s = (es, .ok b t) ↔ m s = .ok b t ∧ es = [] :=
  ⟨fun h => ⟨(Prod.mk.inj h).2, (Prod.mk.inj h).1.symm⟩, fun ⟨h, he⟩ => by rw [he, ← h]; rfl⟩

theorem entering_eq_ok_iff {entry : σ → EStateM.Result φ σ β → η} {m : EStateM φ σ β} {s t : σ}
    {b : β} {es : List η} :
    entering entry m s = (es, .ok b t) ↔ m s = .ok b t ∧ es = [entry s (.ok b t)] := by
  constructor
  · intro h
    obtain ⟨he, hm⟩ := Prod.mk.inj h
    exact ⟨hm, by rw [← he, hm]⟩
  · rintro ⟨hm, rfl⟩
    exact Prod.ext (by rw [← hm]; rfl) hm

theorem within_eq_ok_iff {τ : Type} {part : Part σ τ} {w : Scribe η φ τ β} {s t : σ} {b : β}
    {es : List η} : within part w s = (es, .ok b t) ↔
      ∃ u, w (part.get s) = (es, .ok b u) ∧ t = part.set u s := by
  constructor
  · intro h
    obtain ⟨hes, hrun⟩ := Prod.mk.inj h
    obtain ⟨u, hu, rfl⟩ := (Part.run_eq_ok_iff part).mp hrun
    exact ⟨u, Prod.ext hes hu, rfl⟩
  · rintro ⟨u, hw, rfl⟩
    have hu : w.outcome (part.get s) = .ok b u := congrArg Prod.snd hw
    have hes : (within part w s).1 = es := congrArg Prod.fst hw
    exact Prod.ext hes ((Part.run_eq_ok_iff part).mpr ⟨u, hu, rfl⟩)

theorem within_of_error {τ : Type} {part : Part σ τ} {w : Scribe η φ τ β} {s : σ} {u : τ} {e : φ}
    {es : List η} (h : w (part.get s) = (es, .error e u)) :
    within part w s = (es, .error e (part.set u s)) := by
  have hu : w.outcome (part.get s) = .error e u := congrArg Prod.snd h
  have hes : (within part w s).1 = es := congrArg Prod.fst h
  exact Prod.ext hes (Part.run_of_error part hu)

theorem within_eq_error_iff {τ : Type} {part : Part σ τ} {w : Scribe η φ τ β} {s t : σ} {e : φ}
    {es : List η} : within part w s = (es, .error e t) ↔
      ∃ u, w (part.get s) = (es, .error e u) ∧ t = part.set u s := by
  constructor
  · intro h
    obtain ⟨hes, hrun⟩ := Prod.mk.inj h
    obtain ⟨u, hu, rfl⟩ := (Part.run_eq_error_iff part).mp hrun
    exact ⟨u, Prod.ext hes hu, rfl⟩
  · rintro ⟨u, hw, rfl⟩
    exact within_of_error hw

@[simp] theorem outcome_within {τ : Type} (part : Part σ τ) (w : Scribe η φ τ β) :
    (within part w).outcome = part.run w.outcome := rfl

@[simp] theorem outcome_pure (b : β) : (pure b : Scribe η φ σ β).outcome = pure b := rfl

@[simp] theorem outcome_tacit (m : EStateM φ σ β) : (tacit m : Scribe η φ σ β).outcome = m := rfl

@[simp] theorem outcome_entering (entry : σ → EStateM.Result φ σ β → η) (m : EStateM φ σ β) :
    (entering entry m).outcome = m := rfl

@[simp] theorem outcome_bind (m : Scribe η φ σ β) (k : β → Scribe η φ σ γ) :
    (m >>= k).outcome = m.outcome >>= fun b => (k b).outcome := by
  funext s
  rcases hm : m s with ⟨es, ⟨b, t⟩ | ⟨e, t⟩⟩
  · have ho : m.outcome s = .ok b t := congrArg Prod.snd hm
    rw [Geodescent.bind_of_ok ho]
    show ((m >>= k) s).2 = _
    rw [bind_of_ok hm]
    rfl
  · have ho : m.outcome s = .error e t := congrArg Prod.snd hm
    rw [Geodescent.bind_of_error ho]
    show ((m >>= k) s).2 = _
    rw [bind_of_error hm]

/-- Every failure shows in an entry that is not calm. -/
def Blames (w : Scribe η φ σ β) (Calm : η → Prop) : Prop :=
  ∀ s e t es, w s = (es, .error e t) → ∃ v ∈ es, ¬ Calm v

namespace Blames
variable {Calm : η → Prop}

theorem elim {w : Scribe η φ σ β} (h : Blames w Calm) {s t : σ} {e : φ} {es : List η}
    (hw : w s = (es, .error e t)) (calm : ∀ v ∈ es, Calm v) : False := by
  obtain ⟨v, hv, hnot⟩ := h s e t es hw
  exact hnot (calm v hv)

theorem pure (b : β) : Blames (Pure.pure b : Scribe η φ σ β) Calm :=
  fun _ _ _ _ h => by cases (Prod.mk.inj h).2

theorem bind {m : Scribe η φ σ β} {k : β → Scribe η φ σ γ} (hm : Blames m Calm)
    (hk : ∀ b, Blames (k b) Calm) : Blames (m >>= k) Calm := by
  intro s e t es h
  rcases bind_eq_error_iff.mp h with h₁ | ⟨b, u, fs, gs, -, h₂, rfl⟩
  · exact hm s e t es h₁
  · obtain ⟨v, hv, hnot⟩ := hk b u e t gs h₂
    exact ⟨v, List.mem_append_right fs hv, hnot⟩

theorem tacit {m : EStateM φ σ β} (h : ∀ s e t, m s ≠ .error e t) :
    Blames (Scribe.tacit m : Scribe η φ σ β) Calm :=
  fun s e t _ hm => absurd (Prod.mk.inj hm).2 (h s e t)

theorem entering {entry : σ → EStateM.Result φ σ β → η} {m : EStateM φ σ β}
    (h : ∀ s e t, ¬ Calm (entry s (.error e t))) : Blames (Scribe.entering entry m) Calm := by
  intro s e t es hm
  obtain ⟨rfl, he⟩ := Prod.mk.inj hm
  refine ⟨_, List.mem_singleton_self _, ?_⟩
  rw [he]
  exact h s e t

end Blames

/-- Begun where `I` holds, every entry satisfies `A`, and `J` holds after a success. -/
def Leads (w : Scribe η φ σ β) (I : σ → Prop) (A : η → Prop) (J : σ → Prop) : Prop :=
  ∀ s, I s → (∀ e ∈ (w s).1, A e) ∧ ∀ b t, (w s).2 = .ok b t → J t

namespace Leads
variable {I J K : σ → Prop} {A : η → Prop}

theorem pure (b : β) : Leads (Pure.pure b : Scribe η φ σ β) I A I := by
  intro s hs
  refine ⟨fun _ he => absurd he List.not_mem_nil, fun c t h => ?_⟩
  cases h
  exact hs

theorem bind {m : Scribe η φ σ β} {k : β → Scribe η φ σ γ} (hm : Leads m I A J)
    (hk : ∀ b, Leads (k b) J A K) : Leads (m >>= k) I A K := by
  intro s hs
  obtain ⟨hes, ht⟩ := hm s hs
  rcases h : m s with ⟨es, ⟨b, t⟩ | ⟨e, t⟩⟩
  · rw [h] at hes ht
    rw [bind_of_ok h]
    obtain ⟨hfs, hu⟩ := hk b t (ht b t rfl)
    refine ⟨fun e he => ?_, hu⟩
    rcases List.mem_append.mp he with he | he
    · exact hes e he
    · exact hfs e he
  · rw [h] at hes
    rw [bind_of_error h]
    exact ⟨hes, fun b t h => by cases h⟩

theorem tacit {m : EStateM φ σ β} (h : ∀ s b t, I s → m s = .ok b t → J t) :
    Leads (Scribe.tacit m : Scribe η φ σ β) I A J :=
  fun s hs => ⟨fun _ he => absurd he List.not_mem_nil, fun b t ht => h s b t hs ht⟩

theorem entering {entry : σ → EStateM.Result φ σ β → η} {m : EStateM φ σ β}
    (hA : ∀ s, I s → A (entry s (m s))) (h : ∀ s b t, I s → m s = .ok b t → J t) :
    Leads (Scribe.entering entry m) I A J := by
  intro s hs
  refine ⟨fun e he => ?_, fun b t ht => h s b t hs ht⟩
  rw [List.mem_singleton.mp he]
  exact hA s hs

theorem imp {w : Scribe η φ σ β} {I' J' : σ → Prop} {A' : η → Prop} (h : Leads w I A J)
    (hI : ∀ s, I' s → I s) (hA : ∀ e, A e → A' e)
    (hJ : ∀ s es b t, I' s → w s = (es, .ok b t) → J' t) : Leads w I' A' J' := by
  intro s hs
  obtain ⟨hes, -⟩ := h s (hI s hs)
  refine ⟨fun e he => hA e (hes e he), fun b t ht => ?_⟩
  exact hJ s (w s).1 b t hs (Prod.ext rfl ht)

theorem ending {w : Scribe η φ σ β} {J' : σ → Prop} (h : Leads w I A J) (hJ : ∀ s, J s → J' s) :
    Leads w I A J' :=
  fun s hs => ⟨(h s hs).1, fun b t ht => hJ t ((h s hs).2 b t ht)⟩

theorem forget {w : Scribe η φ σ β} {I' : σ → Prop} {A' : η → Prop} (h : Leads w I A J)
    (hI : ∀ s, I' s → I s) (hA : ∀ e, A e → A' e) : Leads w I' A' fun _ => True :=
  h.imp hI hA fun _ _ _ _ _ _ => trivial

theorem within {τ : Type} {part : Part σ τ} {w : Scribe η φ τ β} {I J : τ → Prop}
    (h : Leads w I A J) :
    Leads (Scribe.within part w) (fun s => I (part.get s)) A fun _ => True :=
  fun s hs => ⟨(h (part.get s) hs).1, fun _ _ _ => trivial⟩

theorem entries {w : Scribe η φ σ β} (h : Leads w I A J) {s : σ} {es : List η}
    {r : EStateM.Result φ σ β} (hs : I s) (hw : w s = (es, r)) : ∀ e ∈ es, A e := by
  have hes := (h s hs).1
  rw [hw] at hes
  exact hes

end Leads

/-- Begun where `I` holds, the entries together satisfy `P`, and `J` holds after a success. -/
def Yields (w : Scribe η φ σ β) (I : σ → Prop) (P : List η → Prop) (J : σ → Prop) : Prop :=
  ∀ s, I s → P (w s).1 ∧ ∀ b t, (w s).2 = .ok b t → J t

namespace Yields
variable {I J K : σ → Prop} {P : List η → Prop}

theorem of_leads {w : Scribe η φ σ β} {A : η → Prop} (h : Leads w I A J)
    (hP : ∀ es, (∀ e ∈ es, A e) → P es) : Yields w I P J :=
  fun s hs => ⟨hP _ (h s hs).1, (h s hs).2⟩

theorem bind (hP : ∀ es fs, P es → P fs → P (es ++ fs)) {m : Scribe η φ σ β}
    {k : β → Scribe η φ σ γ} (hm : Yields m I P J) (hk : ∀ b, Yields (k b) J P K) :
    Yields (m >>= k) I P K := by
  intro s hs
  obtain ⟨hes, ht⟩ := hm s hs
  rcases h : m s with ⟨es, ⟨b, t⟩ | ⟨e, t⟩⟩
  · rw [h] at hes ht
    rw [bind_of_ok h]
    obtain ⟨hfs, hu⟩ := hk b t (ht b t rfl)
    exact ⟨hP es _ hes hfs, hu⟩
  · rw [h] at hes
    rw [bind_of_error h]
    exact ⟨hes, fun b t h => by cases h⟩

end Yields
end Scribe
end Geodescent
