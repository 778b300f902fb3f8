import Geodescent.Proofs.Observation.Chain
import Geodescent.Proofs.Run.Law

/-! The change of an iteration. Actions that show how far the last step went measure from the point
that they remember. In every iteration of every run this is the iterate before the step, so that they
show the change in the books: `change_law`. -/
namespace Geodescent.Solver
variable {ε α : Type} [Scalar α] {p : Problem ε α} {o : Options ε α}
  {chain : List (Decorator ε α)} {solver : Solver ε α} {d : Decorator ε α} {s t : Session ε α}

/-- The actions of a decorator that remember points remember `x`. -/
def Watching (d : Decorator ε α) (x : Point α) (s : Session ε α) : Prop :=
  ∀ i ∈ d.watchers, (s.memory.get i).previous = x

section Hooks
variable {phase : Phase} {k : Nat} {b : Bool} {x : Point α}

theorem watching_of_told (hphase : phase ≠ .stop)
    (h : (Call.hook phase k d).perform p o solver s = .ok b t) : Watching d t.state.x t := by
  obtain ⟨u, htell, rfl⟩ := tell_of_perform h
  have hrunning : (told p phase k s).stopped = false := decide_eq_false hphase
  intro i hi
  have hprevious := Decorator.tell_watchers hrunning htell i hi
  exact hprevious

theorem watching_of_spared {e : Decorator ε α} (he : e.Spares d.ids) (hs : Watching d x s)
    (h : (Call.hook phase k e).perform p o solver s = .ok b t) : Watching d x t := by
  obtain ⟨u, htell, rfl⟩ := tell_of_perform h
  intro i hi
  have hsame := Decorator.tell_spares he htell i (d.watchers_subset_ids hi)
  have hprevious : (u.memory.get i).previous = x := by
    rw [hsame]
    exact hs i hi
  exact hprevious

theorem watching_of_other {c : Call ε α} (h : c.perform p o solver s = .ok b t)
    (hc : ∀ phase k e, c ≠ .hook phase k e) (hs : Watching d x s) : Watching d x t := by
  intro i hi
  rw [(memory_of_perform hc h).1]
  exact hs i hi

/-- A call of some hook in a state with `R`; if it is the hook of `d`, then `Q` holds as well, unless
`d` has nothing to remember. -/
def Reached (phase : Phase) (k : Nat) (d : Decorator ε α) (R : State α → Prop)
    (Q : Session ε α → Prop) (v : Visit ε α) : Prop :=
  (∃ e, v.call = .hook phase k e) ∧ R v.before.state ∧
    (v.call = .hook phase k d → Q v.before ∨ d.ids = [])

theorem leads_hooks {pre post : List (Decorator ε α)} {R : State α → Prop}
    {Q : Session ε α → Prop} (hphase : phase ≠ .stop) (hpost : ∀ e ∈ post, e.Spares d.ids)
    (hQ : ∀ e ∈ pre, ∀ s b t, Q s → (Call.hook phase k e).perform p o solver s = .ok b t → Q t) :
    Scribe.Leads (Narrated.visitEach p o solver (hooks (pre ++ d :: post) phase k))
      (fun s => R s.state ∧ Q s) (Reached phase k d R Q)
      (fun s => R s.state ∧ Watching d s.state.x s) := by
  induction pre with
  | nil =>
    refine .bind (J := fun s => R s.state ∧ Watching d s.state.x s)
      (.entering (fun s hs => ?_) fun s b t hs h => ?_) fun _ => leads_visitEach fun c hc => ?_
    · exact ⟨⟨d, rfl⟩, hs.1, fun _ => .inl hs.2⟩
    · obtain ⟨-, hstate, -⟩ := perform_hook h
      have hwatching := watching_of_told hphase h
      rw [hstate] at hwatching ⊢
      exact ⟨hs.1, hwatching⟩
    · obtain ⟨e, he, rfl⟩ := List.mem_map.mp hc
      have hspares := hpost e he
      refine .entering (fun s hs => ⟨⟨e, rfl⟩, hs.1, fun hcall => .inr ?_⟩) fun s b t hs h => ?_
      · -- a decorator that spares its own actions has none
        cases hcall
        exact Decorator.ids_eq_nil_of_spares_self hspares
      · obtain ⟨-, hstate, -⟩ := perform_hook h
        have hwatching := watching_of_spared hspares hs.2 h
        rw [hstate]
        exact ⟨hs.1, hwatching⟩
  | cons e pre ih =>
    have hrest := ih fun e' he' => hQ e' (List.mem_cons_of_mem e he')
    refine .bind (.entering (fun s hs => ?_) fun s b t hs h => ?_) fun _ => hrest
    · exact ⟨⟨e, rfl⟩, hs.1, fun _ => .inl hs.2⟩
    · obtain ⟨-, hstate, -⟩ := perform_hook h
      rw [hstate]
      exact ⟨hs.1, hQ e List.mem_cons_self s b t hs.2 h⟩

end Hooks

/-- What holds of a call `v` of a hook after the call `u` of the step: the books show the change, and
whatever remembers points remembers the one before the step. -/
structure Informed (p : Problem ε α) (d : Decorator ε α) (u v : Visit ε α) : Prop where
  stepped : ∃ b w, u.outcome = .ok b w ∧ w.state.x = v.before.state.x
  change : ∃ c, p.manifold.dist u.before.state.x v.before.state.x = .ok c ∧
    v.before.state.lastChange = .real c
  watching : Watching d u.before.state.x v.before

def Explained (p : Problem ε α) (d : Decorator ε α) (vs : List (Visit ε α)) : Prop :=
  ∀ v ∈ vs, ∀ k, v.call = .hook .iteration k d →
    0 < k ∧ ∃ u ∈ vs, u.call = .step k ∧ Informed p d u v

def Booked (p : Problem ε α) (x y : Point α) (state : State α) : Prop :=
  state.x = y ∧ ∃ c, p.manifold.dist x y = .ok c ∧ state.lastChange = .real c

section Explained

omit [Scalar α] in
theorem explained_append {vs ws : List (Visit ε α)} (hvs : Explained p d vs)
    (hws : Explained p d ws) : Explained p d (vs ++ ws) := by
  intro v hv k hk
  rcases List.mem_append.mp hv with hv | hv
  · obtain ⟨hpos, u, hu, hinformed⟩ := hvs v hv k hk
    exact ⟨hpos, u, List.mem_append_left ws hu, hinformed⟩
  · obtain ⟨hpos, u, hu, hinformed⟩ := hws v hv k hk
    exact ⟨hpos, u, List.mem_append_right vs hu, hinformed⟩

omit [Scalar α] in
theorem explained_of_none {vs : List (Visit ε α)}
    (h : ∀ v ∈ vs, ∀ k, v.call ≠ .hook .iteration k d) : Explained p d vs :=
  fun v hv k hk => absurd hk (h v hv k)

theorem yields_visit {c : Call ε α} {I J : Session ε α → Prop}
    (hc : ∀ k, c ≠ .hook .iteration k d)
    (h : ∀ s b t, I s → c.perform p o solver s = .ok b t → J t) :
    Scribe.Yields (Narrated.visit p o solver c) I (Explained p d) J := by
  have hleads : Scribe.Leads (Narrated.visit p o solver c) I (fun v => v.call = c) J :=
    .entering (fun _ _ => rfl) h
  refine .of_leads hleads fun vs hvs => explained_of_none fun v hv k => ?_
  rw [hvs v hv]
  exact hc k

omit [Scalar α] in
theorem yields_tacit {β : Type} {m : Run ε α β} {I J : Session ε α → Prop}
    (h : ∀ s b t, I s → m s = .ok b t → J t) :
    Scribe.Yields (Scribe.tacit m) I (Explained p d) J :=
  .of_leads (A := fun _ => False) (.tacit h) fun _ hvs => explained_of_none fun v hv =>
    (hvs v hv).elim

section Around
variable {pre post : List (Decorator ε α)}
  (hpre : ∀ e ∈ pre, e.Spares d.ids) (hpost : ∀ e ∈ post, e.Spares d.ids)
include hpre hpost

variable (p o solver) in
theorem leads_stepped (k : Nat) (x y : Point α) :
    Scribe.Leads (do
        let change ← Scribe.tacit (Narrated.measure p x k)
        Narrated.visitEach p o solver (hooks (pre ++ d :: post) .iteration k)
        Scribe.tacit (modify (Session.note (passEntry (Int.ofNat k) change))))
      (fun s => s.state.x = y ∧ Watching d x s)
      (Reached .iteration k d (Booked p x y) (Watching d x))
      (fun s => Watching d s.state.x s) := by
  refine .bind (J := fun s => Booked p x y s.state ∧ Watching d x s)
    (.tacit fun s c t hs h => ?_) fun c => .bind (J := fun s => Watching d s.state.x s) ?_
      fun _ => .tacit fun s _ t hs h => ?_
  · obtain ⟨rfl, hwatching⟩ := hs
    obtain ⟨hc, rfl⟩ := measure_eq_ok_iff.mp h
    exact ⟨⟨rfl, c, hc, rfl⟩, hwatching⟩
  · have hhooks : Scribe.Leads
        (Narrated.visitEach p o solver (hooks (pre ++ d :: post) .iteration k))
        (fun s => Booked p x y s.state ∧ Watching d x s)
        (Reached .iteration k d (Booked p x y) (Watching d x))
        (fun s => Booked p x y s.state ∧ Watching d s.state.x s) :=
      leads_hooks nofun hpost fun e he _ _ _ hs h => watching_of_spared (hpre e he) hs h
    exact hhooks.ending fun _ hs => hs.2
  · cases h
    exact hs

theorem yields_pass {k : Nat} (hk : 0 < k) :
    Scribe.Yields (Narrated.pass p o (pre ++ d :: post) solver k)
      (fun s => Watching d s.state.x s) (Explained p d) fun s => Watching d s.state.x s := by
  intro s hs
  rw [Narrated.pass, Scribe.tacit_get_bind]
  rcases hstep : (Call.step k).perform p o solver s with ⟨b, u⟩ | ⟨e, u⟩
  · have hvisit : Narrated.visit p o solver (.step k) s = ([⟨.step k, s, .ok b u⟩], .ok b u) :=
      visit_eq_ok_iff.mpr ⟨hstep, rfl⟩
    have hwatching : Watching d s.state.x u := watching_of_other hstep (Call.step_ne_hook k) hs
    obtain ⟨hvs, hend⟩ := leads_stepped p o solver hpre hpost k s.state.x u.state.x u
      ⟨rfl, hwatching⟩
    rw [Scribe.bind_of_ok hvisit]
    refine ⟨fun v hv j hj => ?_, hend⟩
    rcases List.mem_cons.mp hv with rfl | hv
    · cases hj
    obtain ⟨⟨e, he⟩, ⟨hx, c, hc, hchange⟩, hremembered⟩ := hvs v hv
    have hjk : j = k := by
      rw [he] at hj
      cases hj
      rfl
    subst hjk
    refine ⟨hk, ⟨.step j, s, .ok b u⟩, List.mem_cons_self, rfl, ⟨b, u, rfl, hx.symm⟩, ?_, ?_⟩
    · rw [hx]
      exact ⟨c, hc, hchange⟩
    · rcases hremembered hj with h | hnone
      · exact h
      · intro i hi
        have hids : i ∈ d.ids := d.watchers_subset_ids hi
        rw [hnone] at hids
        exact absurd hids List.not_mem_nil
  · have hvisit : Narrated.visit p o solver (.step k) s =
        ([⟨.step k, s, .error e u⟩], .error e u) := by
      rw [← hstep]
      rfl
    rw [Scribe.bind_of_error hvisit]
    refine ⟨explained_of_none fun v hv j => ?_, fun b t h => by cases h⟩
    rw [List.mem_singleton.mp hv]
    exact Call.step_ne_hook k .iteration j d

theorem yields_onward (fuel done : Nat) (stop : Bool) :
    Scribe.Yields (Narrated.onward p o (pre ++ d :: post) solver fuel done stop)
      (fun s => Watching d s.state.x s) (Explained p d) fun _ => True := by
  induction fuel, done, stop using Narrated.onward.induct with
  | case1 fuel done =>
    rw [Narrated.onward]
    exact fun s _ => ⟨explained_of_none fun _ hv => absurd hv List.not_mem_nil, fun _ _ _ => trivial⟩
  | case2 done => exact yields_tacit fun s b t _ h => by cases h
  | case3 fuel done ih =>
    refine .bind (fun _ _ => explained_append) (yields_pass hpre hpost done.succ_pos) fun _ => ?_
    refine .bind (fun _ _ => explained_append) ?_ fun stop => ih stop
    refine yields_visit (Call.judge_ne_hook (done + 1) .iteration · d) fun s b t hs h => ?_
    rw [perform_judge h]
    exact watching_of_other h (Call.judge_ne_hook (done + 1)) hs

theorem yields_course (fuel : Nat) :
    Scribe.Yields (Narrated.course p o (pre ++ d :: post) solver fuel) (fun _ => True)
      (Explained p d) fun _ => True := by
  have hstart : Scribe.Yields
      (Narrated.visitEach p o solver (hooks (pre ++ d :: post) .start 0)) (fun _ => True)
      (Explained p d) fun s => Watching d s.state.x s := by
    have hhooks : Scribe.Leads
        (Narrated.visitEach p o solver (hooks (pre ++ d :: post) .start 0))
        (fun _ => True ∧ True) (Reached .start 0 d (fun _ => True) fun _ => True)
        (fun s => True ∧ Watching d s.state.x s) :=
      leads_hooks (R := fun _ => True) (Q := fun _ => True) nofun hpost
        fun _ _ _ _ _ _ _ => trivial
    intro s _
    obtain ⟨hvs, hend⟩ := hhooks s ⟨trivial, trivial⟩
    refine ⟨explained_of_none fun v hv k => ?_, fun b t h => (hend b t h).2⟩
    obtain ⟨⟨e, he⟩, -⟩ := hvs v hv
    rw [he]
    exact nofun
  have hstop (n : Nat) : Scribe.Yields
      (Narrated.visitEach p o solver (hooks (pre ++ d :: post) .stop n)) (fun _ => True)
      (Explained p d) fun _ => True := by
    have hcalls : Scribe.Leads (Narrated.visitEach p o solver (hooks (pre ++ d :: post) .stop n))
        (fun _ => True) (fun v => ∃ e, v.call = .hook .stop n e) fun _ => True := by
      refine leads_visitEach fun c hc => ?_
      obtain ⟨e, rfl⟩ := mem_hooks hc
      exact .entering (fun _ _ => ⟨e, rfl⟩) fun _ _ _ _ _ => trivial
    refine .of_leads hcalls fun vs hvs => explained_of_none fun v hv k => ?_
    obtain ⟨e, he⟩ := hvs v hv
    rw [he]
    exact nofun
  -- from the start on the watchers remember the present point between any two iterations
  refine .bind (fun _ _ => explained_append) hstart fun _ => ?_
  refine .bind (fun _ _ => explained_append) (yields_tacit (J := fun s => Watching d s.state.x s)
    fun s b t hs h => ?_) fun _ => ?_
  · cases h
    exact hs
  refine .bind (fun _ _ => explained_append) (yields_visit (J := fun s => Watching d s.state.x s)
    (Call.judge_ne_hook 0 .iteration · d) fun s b t hs h => ?_) fun stop => ?_
  · rw [perform_judge h]
    exact watching_of_other h (Call.judge_ne_hook 0) hs
  refine .bind (fun _ _ => explained_append) (yields_onward hpre hpost fuel 0 stop) fun n => ?_
  exact .bind (fun _ _ => explained_append) (yields_tacit fun _ _ _ _ _ => trivial) fun _ => hstop n

theorem explained_history (fuel : Nat) (s : Session ε α) :
    Explained p d (history fuel p o (pre ++ d :: post) solver s) := by
  have hsolve : Scribe.Yields (Narrated.solve p o (pre ++ d :: post) solver fuel) (fun _ => True)
      (Explained p d) fun _ => True := by
    refine .bind (fun _ _ => explained_append) (yields_tacit fun _ _ _ h _ => h) fun _ => ?_
    refine .bind (fun _ _ => explained_append) (yields_tacit fun _ _ _ h _ => h) fun _ => ?_
    refine .bind (fun _ _ => explained_append) ?_ fun _ => yields_course hpre hpost fuel
    exact yields_visit (Call.prepare_ne_hook .iteration · d) fun _ _ _ h _ => h
  exact (hsolve s trivial).1

end Around
end Explained

section Shown
variable {v : Visit ε α} {k : Nat} {x : Point α} {c : α}

theorem captures_change {g : RecordAction} (distinct : g.Distinct)
    (hv : v.call = .hook .iteration k (.record g)) (watching : Watching (.record g) x v.before)
    (hdist : p.manifold.dist x v.before.state.x = .ok c)
    (hlast : v.before.state.lastChange = .real c) {q : Capture ε α} (hq : q ∈ v.captures p)
    (hkind : q.kind = .quantity .change) : q.outcome = .ok (.real c) q.before := by
  simp only [Visit.captures, hv] at hq
  have asked := (RecordAction.leads_run (t := told p .iteration k v.before)
    (m := fun i => v.before.memory.get i) distinct).entries (s := (Session.observing ε α).get v.before)
    (fun _ _ => rfl) rfl q hq
  obtain ⟨ℓ, hℓ, hsite⟩ := asked.leaf
  have hwatcher : q.id ∈ g.watchers := by
    obtain ⟨hid, hsame⟩ := Prod.mk.inj hsite
    refine List.mem_map.mpr ⟨ℓ, List.mem_filter.mpr ⟨hℓ, ?_⟩, hid⟩
    rw [hsame, hkind]
    exact decide_eq_true rfl
  have hprevious : (q.before.memory.get q.id).previous = x := by
    rw [asked.memory]
    exact watching q.id hwatcher
  rw [asked.outcome, hkind]
  by_cases hnone : x = .none
  · rw [RecordAction.capture_change_of_none (hprevious.trans hnone)]
    have hbooked : (told p .iteration k v.before).state.lastChange = .real c := hlast
    rw [hbooked]
    rfl
  · rw [RecordAction.capture_change_of_seen (by rw [hprevious]; exact hnone), hprevious]
    have hmoved : Observing.moved (told p .iteration k v.before) x = .ok c := hdist
    rw [hmoved]
    rfl

theorem printings_change {a : DebugAction} (distinct : a.Distinct)
    (hv : v.call = .hook .iteration k (.debug a)) (hk : 0 < k)
    (watching : Watching (.debug a) x v.before)
    (hdist : p.manifold.dist x v.before.state.x = .ok c) {q : Printing ε α}
    (hq : q ∈ v.printings p) {label : String} (hkind : q.printer.kind = .change label) :
    (x = .none → q.outcome = .ok none q.before) ∧
      (x ≠ .none → q.outcome = .ok (some (label ++ Scalar.brief c)) q.before) := by
  simp only [Visit.printings, hv] at hq
  have asked := (DebugAction.leads_run (t := told p .iteration k v.before)
    (m := fun i => v.before.memory.get i) distinct).entries (s := (Session.observing ε α).get v.before)
    (fun _ _ => rfl) rfl q hq
  obtain ⟨ℓ, hℓ, hsite⟩ := asked.leaf
  have hwatcher : q.id ∈ a.watchers := by
    obtain ⟨hid, hsame⟩ := Prod.mk.inj hsite
    refine List.mem_map.mpr ⟨ℓ, List.mem_filter.mpr ⟨hℓ, ?_⟩, hid⟩
    rw [hsame, hkind]
    rfl
  have hprevious : (q.before.memory.get q.id).previous = x := by
    rw [asked.memory]
    exact watching q.id hwatcher
  rw [asked.outcome, hkind]
  refine ⟨fun hnone => ?_, fun hsome => ?_⟩
  · exact DebugAction.content_change_of_none (hprevious.trans hnone)
  · have hmoved : Observing.moved (told p .iteration k v.before) x = .ok c := hdist
    have hiteration : 0 < (told p .iteration k v.before).iteration := Int.natCast_pos.mpr hk
    rw [DebugAction.content_change_of_seen (by rw [hprevious]; exact hsome), hprevious, hmoved,
      if_pos hiteration]
    rfl

end Shown

/-- The hook called in `v` shows the change `c` of the step called in `u`, from the iterate before it
to the one after it. -/
structure Visit.ShowsChange (p : Problem ε α) (u v : Visit ε α) (c : α) : Prop where
  moved : ∃ b w, u.outcome = .ok b w ∧ w.state.x = v.before.state.x
  dist : p.manifold.dist u.before.state.x v.before.state.x = .ok c
  booked : v.before.state.lastChange = .real c
  captured : ∀ q ∈ v.captures p, q.kind = .quantity .change → q.outcome = .ok (.real c) q.before
  printed : ∀ q ∈ v.printings p, ∀ label, q.printer.kind = .change label →
    (u.before.state.x = .none → q.outcome = .ok none q.before) ∧
      (u.before.state.x ≠ .none → q.outcome = .ok (some (label ++ Scalar.brief c)) q.before)

/-- In every iteration of every run, also of one that fails later on and whatever the actions
remember from earlier runs, records capture and debug output shows the change in the books. It is
the distance between the iterates before and after the step. -/
theorem change_law (apart : chain.Pairwise Decorator.Apart) (distinct : ∀ d ∈ chain, d.Distinct)
    (fuel : Nat) (s : Session ε α) :
    (Narrated.solve p o chain solver fuel).outcome = solve fuel p o chain solver ∧
    ∀ v ∈ history fuel p o chain solver s, ∀ k, ∀ d ∈ chain, v.call = .hook .iteration k d →
      ∃ u ∈ history fuel p o chain solver s, u.call = .step k ∧ ∃ c, u.ShowsChange p v c := by
  refine ⟨outcome_solve p o _ solver fuel, fun v hv k d hd hcall => ?_⟩
  obtain ⟨pre, post, rfl, hpre, hpost⟩ := Decorator.exists_split apart hd
  obtain ⟨hk, u, hu, hstep, informed⟩ := explained_history hpre hpost fuel s v hv k hcall
  obtain ⟨c, hc, hlast⟩ := informed.change
  have hdistinct := distinct d hd
  refine ⟨u, hu, hstep, c, informed.stepped, hc, hlast, fun q hq hkind => ?_,
    fun q hq label hkind => ?_⟩
  · cases d with
    | record g => exact captures_change hdistinct hcall informed.watching hc hlast hq hkind
    | plain | debug _ | custom _ _ _ =>
      simp only [Visit.captures, hcall] at hq
      exact absurd hq List.not_mem_nil
  · cases d with
    | debug a => exact printings_change hdistinct hcall hk informed.watching hc hq hkind
    | plain | record _ | custom _ _ _ =>
      simp only [Visit.printings, hcall] at hq
      exact absurd hq List.not_mem_nil

def lookouts : List (Decorator Unit Float) :=
  [.debug (.every .everySecond (.group [.leaf 0 (.change "moved ") .always none])),
    .record (.group 1 [.leaf 2 (.quantity .change) .always])]

theorem change_law_counting :
    (∃ v ∈ history 3 line twice lookouts counting origin,
      ∃ q ∈ v.captures line, q.kind = .quantity .change) ∧
    (∃ v ∈ history 3 line twice lookouts counting origin,
      ∃ q ∈ v.printings line, q.printer.kind = .change "moved ") ∧
    ∀ v ∈ history 3 line twice lookouts counting origin, ∀ k, ∀ d ∈ lookouts,
      v.call = .hook .iteration k d → ∃ u ∈ history 3 line twice lookouts counting origin,
        u.call = .step k ∧ ∃ c, u.ShowsChange line v c := by
  have apart : lookouts.Pairwise Decorator.Apart := by
    refine List.pairwise_pair.mpr ⟨?_, ?_⟩
    · show ∀ i ∈ [1, 2], i ∉ [0]
      decide
    · show ∀ i ∈ [0], i ∉ [1, 2]
      decide
  have distinct : ∀ d ∈ lookouts, d.Distinct := by
    refine List.forall_mem_cons.mpr ⟨?_, List.forall_mem_singleton.mpr ?_⟩
    · show [0].Nodup
      decide
    · show [1, 2].Nodup
      decide
  exact ⟨by decide +kernel, by decide +kernel, (change_law apart distinct 3 origin).2⟩

end Geodescent.Solver
