/-!
A part of a larger state. A computation on the part runs on the whole and leaves the rest as it was,
whether it returns or fails; what it had changed before failing stays changed.
-/
namespace Geodescent

structure Part (σ τ : Type) where
  get : σ → τ
  set : τ → σ → σ

namespace Part
variable {σ τ φ β : Type}

def run (p : Part σ τ) (m : EStateM φ τ β) : EStateM φ σ β := fun s =>
  match m (p.get s) with
  | .ok b t => .ok b (p.set t s)
  | .error e t => .error e (p.set t s)

theorem run_of_ok (p : Part σ τ) {m : EStateM φ τ β} {s : σ} {b : β} {t : τ}
    (h : m (p.get s) = .ok b t) : p.run m s = .ok b (p.set t s) := by
  simp [run, h]

theorem run_of_error (p : Part σ τ) {m : EStateM φ τ β} {s : σ} {e : φ} {t : τ}
    (h : m (p.get s) = .error e t) : p.run m s = .error e (p.set t s) := by
  simp [run, h]

theorem run_eq_ok_iff (p : Part σ τ) {m : EStateM φ τ β} {s u : σ} {b : β} :
    p.run m s = .ok b u ↔ ∃ t, m (p.get s) = .ok b t ∧ u = p.set t s := by
  rcases h : m (p.get s) with ⟨c, t⟩ | ⟨e, t⟩
  · rw [run_of_ok p h]
    exact ⟨fun hu => by cases hu; exact ⟨t, rfl, rfl⟩, fun ⟨_, ht, hu⟩ => by cases ht; rw [hu]⟩
  · rw [run_of_error p h]
    exact ⟨fun hu => (nomatch hu), fun ⟨_, ht, _⟩ => (nomatch ht)⟩

theorem run_eq_error_iff (p : Part σ τ) {m : EStateM φ τ β} {s u : σ} {e : φ} :
    p.run m s = .error e u ↔ ∃ t, m (p.get s) = .error e t ∧ u = p.set t s := by
  rcases h : m (p.get s) with ⟨c, t⟩ | ⟨e', t⟩
  · rw [run_of_ok p h]
    exact ⟨fun hu => (nomatch hu), fun ⟨_, ht, _⟩ => (nomatch ht)⟩
  · rw [run_of_error p h]
    exact ⟨fun hu => by cases hu; exact ⟨t, rfl, rfl⟩, fun ⟨_, ht, hu⟩ => by cases ht; rw [hu]⟩

end Part

theorem bind_of_ok {σ φ β γ : Type} {m : EStateM φ σ β} {k : β → EStateM φ σ γ} {s t : σ} {b : β}
    (h : m s = .ok b t) : (m >>= k) s = k b t := by
  change EStateM.bind m k s = _
  simp [EStateM.bind, h]

theorem bind_of_error {σ φ β γ : Type} {m : EStateM φ σ β} {k : β → EStateM φ σ γ} {s t : σ}
    {e : φ} (h : m s = .error e t) : (m >>= k) s = .error e t := by
  change EStateM.bind m k s = _
  simp [EStateM.bind, h]

theorem get_bind {σ φ β : Type} (k : σ → EStateM φ σ β) (s : σ) : (get >>= k) s = k s s := rfl

theorem sequence_eq_ok_iff {σ φ β γ : Type} {m : EStateM φ σ β} {k : β → EStateM φ σ γ} {s u : σ}
    {c : γ} : (m >>= k) s = .ok c u ↔ ∃ b t, m s = .ok b t ∧ k b t = .ok c u := by
  rcases h : m s with ⟨b, t⟩ | ⟨e, t⟩
  · rw [bind_of_ok h]
    exact ⟨fun hk => ⟨b, t, rfl, hk⟩, fun ⟨_, _, hm, hk⟩ => by cases hm; exact hk⟩
  · rw [bind_of_error h]
    exact ⟨fun hk => (nomatch hk), fun ⟨_, _, hm, _⟩ => (nomatch hm)⟩

theorem sequence_eq_error_iff {σ φ β γ : Type} {m : EStateM φ σ β} {k : β → EStateM φ σ γ} {s u : σ}
    {e : φ} : (m >>= k) s = .error e u ↔
      m s = .error e u ∨ ∃ b t, m s = .ok b t ∧ k b t = .error e u := by
  rcases h : m s with ⟨b, t⟩ | ⟨e', t⟩
  · rw [bind_of_ok h]
    constructor
    · intro hk
      exact .inr ⟨b, t, rfl, hk⟩
    · rintro (hm | ⟨_, _, hm, hk⟩)
      · cases hm
      · cases hm
        exact hk
  · rw [bind_of_error h]
    constructor
    · rintro ⟨⟩
      exact .inl rfl
    · rintro (⟨⟨⟩⟩ | ⟨_, _, hm, _⟩)
      · rfl
      · cases hm

def settled {σ φ β : Type} : Except φ β → EStateM φ σ β
  | .ok b => pure b
  | .error e => throw e

@[simp] theorem settled_ok {σ φ β : Type} (b : β) (s : σ) :
    (settled (.ok b) : EStateM φ σ β) s = .ok b s := rfl

@[simp] theorem settled_error {σ φ β : Type} (e : φ) (s : σ) :
    (settled (.error e) : EStateM φ σ β) s = .error e s := rfl

theorem settled_ok_bind {σ φ β γ : Type} (b : β) (k : β → EStateM φ σ γ) (s : σ) :
    (settled (.ok b) >>= k) s = k b s := rfl

theorem settled_eq_ok_iff {σ φ β : Type} {a : Except φ β} {b : β} {s t : σ} :
    (settled a : EStateM φ σ β) s = .ok b t ↔ a = .ok b ∧ t = s := by
  rcases a with e | c
  · exact ⟨fun h => (nomatch h), fun ⟨h, _⟩ => (nomatch h)⟩
  · constructor
    · rintro ⟨⟩
      exact ⟨rfl, rfl⟩
    · rintro ⟨⟨⟩, rfl⟩
      rfl

theorem settled_eq_error_iff {σ φ β : Type} {a : Except φ β} {e : φ} {s t : σ} :
    (settled a : EStateM φ σ β) s = .error e t ↔ a = .error e ∧ t = s := by
  rcases a with c | b
  · constructor
    · rintro ⟨⟩
      exact ⟨rfl, rfl⟩
    · rintro ⟨⟨⟩, rfl⟩
      rfl
  · exact ⟨fun h => (nomatch h), fun ⟨h, _⟩ => (nomatch h)⟩

theorem settled_bind_eq_ok_iff {σ φ β γ : Type} {a : Except φ β} {k : β → EStateM φ σ γ} {s u : σ}
    {c : γ} : (settled a >>= k) s = .ok c u ↔ ∃ b, a = .ok b ∧ k b s = .ok c u := by
  constructor
  · intro h
    obtain ⟨b, t, hsettled, hk⟩ := sequence_eq_ok_iff.mp h
    obtain ⟨hb, rfl⟩ := settled_eq_ok_iff.mp hsettled
    exact ⟨b, hb, hk⟩
  · rintro ⟨b, hb, hk⟩
    exact sequence_eq_ok_iff.mpr ⟨b, s, settled_eq_ok_iff.mpr ⟨hb, rfl⟩, hk⟩

end Geodescent
