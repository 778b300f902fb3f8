import Mathlib.Data.List.Forall2
import Geodescent.Proofs.Transcript

/-! Two computations side by side. Twins that begin in related states answer alike or fail alike, and
end in related states; what they list of themselves is related entry by entry. -/
namespace Geodescent

section Parallel
variable {σ φ β : Type} {S S' E E' : σ → σ → Prop} {r r' : EStateM.Result φ σ β}

/-- The same answer in states related by `S`, or the same fault in states related by `E`. -/
inductive Parallel (S E : σ → σ → Prop) :
    EStateM.Result φ σ β → EStateM.Result φ σ β → Prop
  | ok (b : β) {t t' : σ} (h : S t t') : Parallel S E (.ok b t) (.ok b t')
  | error (e : φ) {t t' : σ} (h : E t t') : Parallel S E (.error e t) (.error e t')

theorem Parallel.mono (h : Parallel S E r r') (hS : ∀ t t', S t t' → S' t t')
    (hE : ∀ t t', E t t' → E' t t') : Parallel S' E' r r' := by
  cases h with
  | ok b ht => exact .ok b (hS _ _ ht)
  | error e ht => exact .error e (hE _ _ ht)

theorem Parallel.of_ok {b : β} {t : σ} (h : Parallel S E (.ok b t) r') :
    ∃ t', r' = .ok b t' ∧ S t t' := by
  cases h with
  | ok _ ht => exact ⟨_, rfl, ht⟩

theorem Parallel.symm (h : Parallel S E r r') :
    Parallel (fun t t' => S t' t) (fun t t' => E t' t) r' r := by
  cases h with
  | ok b ht => exact .ok b ht
  | error e ht => exact .error e ht

theorem Parallel.bind {γ : Type} {T : σ → σ → Prop} {m m' : EStateM φ σ β}
    {k k' : β → EStateM φ σ γ} {s s' : σ} (h : Parallel S E (m s) (m' s'))
    (hk : ∀ b t t', m s = .ok b t → S t t' → Parallel T E (k b t) (k' b t')) :
    Parallel T E ((m >>= k) s) ((m' >>= k') s') := by
  rcases hs : m s with ⟨b, t⟩ | ⟨e, t⟩
  · rw [hs] at h
    obtain ⟨t', hs', ht⟩ := h.of_ok
    rw [bind_of_ok hs, bind_of_ok hs']
    exact hk b t t' hs ht
  · rw [hs] at h
    generalize hs' : m' s' = r' at h
    cases h with
    | error _ ht =>
      rw [bind_of_error hs, bind_of_error hs']
      exact .error e ht

theorem Parallel.left (h : Parallel S S r r') : S (left r) (left r') := by
  cases h with
  | ok b ht => exact ht
  | error e ht => exact ht

end Parallel

/-- Begun in states related by `R`, two computations end alike. -/
def Twin {σ φ β : Type} (R S E : σ → σ → Prop) (m m' : EStateM φ σ β) : Prop :=
  ∀ s s', R s s' → Parallel S E (m s) (m' s')

namespace Twin
variable {σ τ φ β γ : Type} {R S T E : σ → σ → Prop} {m m' : EStateM φ σ β}

theorem mono {R' S' E' : σ → σ → Prop} (h : Twin R S E m m') (hR : ∀ s s', R' s s' → R s s')
    (hS : ∀ s s', S s s' → S' s s') (hE : ∀ s s', E s s' → E' s s') : Twin R' S' E' m m' :=
  fun s s' hs => (h s s' (hR s s' hs)).mono hS hE

theorem forward {s s' t : σ} {b : β} (h : Twin R S E m m') (hs : R s s') (ht : m s = .ok b t) :
    ∃ t', m' s' = .ok b t' ∧ S t t' := by
  have hend := h s s' hs
  rw [ht] at hend
  exact hend.of_ok

theorem backward {s s' t' : σ} {b : β} (h : Twin R S E m m') (hs : R s s')
    (ht : m' s' = .ok b t') : ∃ t, m s = .ok b t ∧ S t t' := by
  have hend := (h s s' hs).symm
  rw [ht] at hend
  exact hend.of_ok

theorem pure (b : β) : Twin R R E (Pure.pure b : EStateM φ σ β) (Pure.pure b) :=
  fun _ _ h => .ok b h

theorem throw (e : φ) (hE : ∀ s s', R s s' → E s s') :
    Twin R S E (MonadExcept.throw e : EStateM φ σ β) (MonadExcept.throw e) :=
  fun s s' h => .error e (hE s s' h)

theorem bind {k k' : β → EStateM φ σ γ} (hm : Twin R S E m m')
    (hk : ∀ b, Twin S T E (k b) (k' b)) : Twin R T E (m >>= k) (m' >>= k') :=
  fun s s' h => (hm s s' h).bind fun b t t' _ ht => hk b t t' ht

theorem refl (m : EStateM φ σ β) (hE : ∀ s, E s s) : Twin Eq Eq E m m := by
  rintro s _ rfl
  cases m s with
  | ok b t => exact .ok b rfl
  | error e t => exact .error e (hE t)

theorem settled (a : Except φ β) (hE : ∀ s s', R s s' → E s s') :
    Twin R R E (Geodescent.settled a : EStateM φ σ β) (Geodescent.settled a) := by
  cases a with
  | error e => exact .throw e hE
  | ok b => exact .pure b

theorem modify {f f' : σ → σ} (h : ∀ s s', R s s' → S (f s) (f' s')) :
    Twin R S E (modify f : EStateM φ σ Unit) (modify f') :=
  fun s s' hs => .ok () (h s s' hs)

theorem reading {k k' : σ → EStateM φ σ β} (h : ∀ s s', R s s' → Twin R S E (k s) (k' s')) :
    Twin R S E (get >>= k) (get >>= k') :=
  fun s s' hs => h s s' hs s s' hs

theorem within {part : Part σ τ} {R' S' E' : τ → τ → Prop} {m m' : EStateM φ τ β}
    (h : Twin R' S' E' m m') (hget : ∀ s s', R s s' → R' (part.get s) (part.get s'))
    (hS : ∀ s s' u u', R s s' → S' u u' → S (part.set u s) (part.set u' s'))
    (hE : ∀ s s' u u', R s s' → E' u u' → E (part.set u s) (part.set u' s')) :
    Twin R S E (part.run m) (part.run m') := by
  intro s s' hs
  have hpart := h _ _ (hget s s' hs)
  unfold Part.run
  generalize m (part.get s) = r, m' (part.get s') = r' at hpart
  cases hpart with
  | ok b hu => exact .ok b (hS s s' _ _ hs hu)
  | error e hu => exact .error e (hE s s' _ _ hs hu)

theorem shared {part : Part σ τ} (m : EStateM φ τ β)
    (hget : ∀ s s', R s s' → part.get s = part.get s')
    (hset : ∀ s s' u, R s s' → R (part.set u s) (part.set u s')) :
    Twin R R R (part.run m) (part.run m) := by
  have hsame : Twin Eq Eq Eq m m := .refl m fun _ => rfl
  have hend : ∀ s s' u u', R s s' → u = u' → R (part.set u s) (part.set u' s') := by
    rintro s s' u _ hs rfl
    exact hset s s' u hs
  exact hsame.within hget hend hend

theorem beside (part : Part σ τ) (m : EStateM φ τ β) {g : σ → σ} (hE : ∀ s, E s (g s))
    (hget : ∀ s, part.get (g s) = part.get s)
    (hset : ∀ s u, part.set u (g s) = g (part.set u s)) :
    Twin (fun s s' => s' = g s) (fun s s' => s' = g s) E (part.run m) (part.run m) := by
  have htwin : Twin (fun s s' => s' = g s) (fun s s' => s' = g s) (fun s s' => s' = g s)
      (part.run m) (part.run m) := by
    refine .shared m (fun s s' h => ?_) fun s s' u h => ?_
    · rw [h, hget]
    · rw [h]
      exact hset s u
  refine htwin.mono (fun _ _ h => h) (fun _ _ h => h) fun s s' h => ?_
  rw [h]
  exact hE s

end Twin

/-- Begun in states related by `R`, two computations end alike, with entries related by `Q`. -/
def Scribe.Twin {η φ σ β : Type} (R S E : σ → σ → Prop) (Q : η → η → Prop)
    (w w' : Scribe η φ σ β) : Prop :=
  ∀ s s', R s s' → List.Forall₂ Q (w s).1 (w' s').1 ∧ Parallel S E (w s).2 (w' s').2

namespace Scribe.Twin
variable {η φ σ β γ : Type} {R S T E : σ → σ → Prop} {Q : η → η → Prop} {w w' : Scribe η φ σ β}

theorem mono {R' S' E' : σ → σ → Prop} {Q' : η → η → Prop} (h : Scribe.Twin R S E Q w w')
    (hR : ∀ s s', R' s s' → R s s') (hS : ∀ s s', S s s' → S' s s')
    (hE : ∀ s s', E s s' → E' s s') (hQ : ∀ e e', Q e e' → Q' e e') :
    Scribe.Twin R' S' E' Q' w w' := by
  intro s s' hs
  obtain ⟨hentries, hresult⟩ := h s s' (hR s s' hs)
  exact ⟨hentries.imp hQ, hresult.mono hS hE⟩

theorem pure (b : β) : Scribe.Twin R R E Q (Pure.pure b : Scribe η φ σ β) (Pure.pure b) :=
  fun _ _ h => ⟨.nil, .ok b h⟩

theorem bind {k k' : β → Scribe η φ σ γ} (hw : Scribe.Twin R S E Q w w')
    (hk : ∀ b, Scribe.Twin S T E Q (k b) (k' b)) :
    Scribe.Twin R T E Q (w >>= k) (w' >>= k') := by
  intro s s' h
  have hfirst := hw s s' h
  rcases hs : w s with ⟨es, ⟨b, t⟩ | ⟨e, t⟩⟩
  · rcases hs' : w' s' with ⟨es', r'⟩
    rw [hs, hs'] at hfirst
    obtain ⟨hentries, hresult⟩ := hfirst
    obtain ⟨t', rfl, ht⟩ := hresult.of_ok
    rw [bind_of_ok hs, bind_of_ok hs']
    obtain ⟨hrest, hend⟩ := hk b t t' ht
    exact ⟨List.rel_append hentries hrest, hend⟩
  · rcases hs' : w' s' with ⟨es', r'⟩
    rw [hs, hs'] at hfirst
    obtain ⟨hentries, hresult⟩ := hfirst
    cases hresult with
    | error _ ht =>
      rw [bind_of_error hs, bind_of_error hs']
      exact ⟨hentries, .error e ht⟩

theorem left_bind {K : σ → σ → Prop} {k k' : β → Scribe η φ σ γ} {s s' : σ}
    (hw : Scribe.Twin R S E Q w w') (hs : R s s')
    (failed : ∀ e t, (w s).2 = .error e t → K (left (w s).2) (left (w' s').2))
    (returned : ∀ b t t', (w s).2 = .ok b t → S t t' → K (left (k b t).2) (left (k' b t').2)) :
    K (left ((w >>= k) s).2) (left ((w' >>= k') s').2) := by
  have hfirst := (hw s s' hs).2
  rcases hrun : w s with ⟨es, ⟨b, t⟩ | ⟨e, t⟩⟩
  · rcases hrun' : w' s' with ⟨es', r'⟩
    rw [hrun, hrun'] at hfirst
    obtain ⟨t', rfl, ht⟩ := hfirst.of_ok
    rw [bind_of_ok hrun, bind_of_ok hrun']
    exact returned b t t' (congrArg Prod.snd hrun) ht
  · have hend := failed e t (congrArg Prod.snd hrun)
    rcases hrun' : w' s' with ⟨es', r'⟩
    rw [hrun, hrun'] at hfirst hend
    cases hfirst with
    | error _ _ =>
      rw [bind_of_error hrun, bind_of_error hrun']
      exact hend

theorem tacit {m m' : EStateM φ σ β} (h : Geodescent.Twin R S E m m') :
    Scribe.Twin R S E Q (Scribe.tacit m) (Scribe.tacit m') :=
  fun s s' hs => ⟨.nil, h s s' hs⟩

theorem reading {k k' : σ → Scribe η φ σ β}
    (h : ∀ s s', R s s' → Scribe.Twin R S E Q (k s) (k' s')) :
    Scribe.Twin R S E Q (Scribe.tacit get >>= k) (Scribe.tacit get >>= k') := by
  intro s s' hs
  rw [tacit_get_bind, tacit_get_bind]
  exact h s s' hs s s' hs

theorem entering {entry entry' : σ → EStateM.Result φ σ β → η} {m m' : EStateM φ σ β}
    (h : Geodescent.Twin R S E m m')
    (hQ : ∀ s s', R s s' → Q (entry s (m s)) (entry' s' (m' s'))) :
    Scribe.Twin R S E Q (Scribe.entering entry m) (Scribe.entering entry' m') :=
  fun s s' hs => ⟨.cons (hQ s s' hs) .nil, h s s' hs⟩

end Scribe.Twin
end Geodescent
