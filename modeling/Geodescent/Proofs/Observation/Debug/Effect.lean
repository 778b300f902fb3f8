import Geodescent.Proofs.Observation.Debug.Printing

/-! What a run of a debug action does. It asks exactly the leaves that act and writes their texts in
this order (`run_ok`). Whatever becomes of it, a leaf is asked with the memory it had before
(`leads_run`). -/
namespace Geodescent
variable {ε α : Type}

def Outlet.share (settings : Settings α) (outlet : Outlet) (stream : Option String) :
    Option String → String
  | none => ""
  | some text =>
    match DebugAction.outletOf stream settings with
    | .ok other => if other = outlet then text else ""
    | .error _ => ""

theorem Outlet.share_of_ne {settings : Settings α} {outlet : Outlet} {stream : Option String}
    (h : DebugAction.outletOf stream settings ≠ .ok outlet) (text : Option String) :
    outlet.share settings stream text = "" := by
  cases text with
  | none => rfl
  | some text =>
    rw [share]
    cases hother : DebugAction.outletOf stream settings with
    | error e => rfl
    | ok other =>
      have hne : other ≠ outlet := fun heq => h (heq ▸ hother)
      exact if_neg hne

theorem Outlet.share_of_eq {settings : Settings α} {outlet : Outlet} {stream : Option String}
    (h : DebugAction.outletOf stream settings = .ok outlet) (text : Option String) :
    outlet.share settings stream text = text.getD "" := by
  cases text with
  | none => rfl
  | some text =>
    rw [share, h]
    exact if_pos rfl

def Printing.textOn (settings : Settings α) (outlet : Outlet) (g : Printing ε α) : String :=
  outlet.share settings g.printer.outlet g.text?

namespace DebugAction
variable [Scalar α] {t : Moment ε α} {o o' u : Observing ε α} {gs gs' : List (Printing ε α)}

/-- What running actions with the leaves `ℓs` does when it returns. -/
structure Ran (t : Moment ε α) (ℓs : List (Leaf Printer)) (o : Observing ε α)
    (gs : List (Printing ε α)) (o' : Observing ε α) : Prop where
  sites : gs.map Printing.site = Leaf.sites (fun ℓ => ℓ.Acts t.iteration t.stopped) ℓs
  texts : ∀ g ∈ gs, ∃ text u, g.outcome = .ok text u
  console : ∀ outlet, Console.text o'.console outlet =
    Console.text o.console outlet ++ String.join (gs.map (Printing.textOn t.settings outlet))
  env : t.problem.Undisturbing → o'.env = o.env
  kept : Observing.Kept t.state.x t.stopped (watchersOf ℓs) (ℓs.map Leaf.id) o o'

namespace Ran
variable {ℓs ℓs' : List (Leaf Printer)}

omit [Scalar α] in
theorem nil (t : Moment ε α) (o : Observing ε α) : Ran t [] o [] o where
  sites := rfl
  texts _ hg := absurd hg List.not_mem_nil
  console _ := String.append_empty.symm
  env _ := rfl
  kept := .refl _ _ o

omit [Scalar α] in
theorem append (h : Ran t ℓs o gs u) (g : Ran t ℓs' u gs' o') :
    Ran t (ℓs ++ ℓs') o (gs ++ gs') o' where
  sites := by rw [List.map_append, h.sites, g.sites, Leaf.sites_append]
  texts := List.forall_mem_append.mpr ⟨h.texts, g.texts⟩
  console outlet := by
    rw [g.console, h.console, List.map_append, String.join_append, String.append_assoc]
  env hp := (g.env hp).trans (h.env hp)
  kept := by
    rw [watchersOf_append, List.map_append]
    exact h.kept.append g.kept

omit [Scalar α] in
theorem exists_leaf (h : Ran t ℓs o gs o') {g : Printing ε α} (hg : g ∈ gs) :
    ∃ ℓ ∈ ℓs, ℓ.kind = g.printer := by
  have hsite : g.site ∈ gs.map Printing.site := List.mem_map_of_mem hg
  rw [h.sites] at hsite
  obtain ⟨ℓ, hℓ, hsame⟩ := Leaf.exists_of_mem_sites hsite
  exact ⟨ℓ, hℓ, congrArg Prod.snd hsame⟩

omit [Scalar α] in
theorem text_of_none (h : Ran t ℓs o gs o') {outlet : Outlet}
    (hℓs : ∀ ℓ ∈ ℓs, outletOf ℓ.kind.outlet t.settings ≠ .ok outlet) :
    Console.text o'.console outlet = Console.text o.console outlet := by
  have hnone : ∀ g ∈ gs, g.textOn t.settings outlet = "" := by
    intro g hg
    obtain ⟨ℓ, hℓ, hkind⟩ := h.exists_leaf hg
    exact Outlet.share_of_ne (hkind ▸ hℓs ℓ hℓ) g.text?
  have hjoin : ∀ qs : List (Printing ε α), String.join (qs.map fun _ => "") = "" := by
    intro qs
    induction qs with
    | nil => rfl
    | cons q qs ih => rw [List.map_cons, String.join_cons, ih, String.append_empty]
  rw [h.console, List.map_congr_left hnone, hjoin, String.append_empty]

omit [Scalar α] in
theorem text_of_all (h : Ran t ℓs o gs o') {outlet : Outlet}
    (hℓs : ∀ ℓ ∈ ℓs, outletOf ℓ.kind.outlet t.settings = .ok outlet) :
    Console.text o'.console outlet =
      Console.text o.console outlet ++ String.join (gs.map fun g => g.text?.getD "") := by
  have hown : ∀ g ∈ gs, g.textOn t.settings outlet = g.text?.getD "" := by
    intro g hg
    obtain ⟨ℓ, hℓ, hkind⟩ := h.exists_leaf hg
    exact Outlet.share_of_eq (hkind ▸ hℓs ℓ hℓ) g.text?
  rw [h.console, List.map_congr_left hown]

end Ran

omit [Scalar α] in
theorem put_ok {stream text : Option String} (h : put t stream text o = .ok () o') :
    o'.env = o.env ∧ o'.memory = o.memory ∧ ∀ outlet, Console.text o'.console outlet =
      Console.text o.console outlet ++ outlet.share t.settings stream text := by
  cases text with
  | none =>
    cases h
    exact ⟨rfl, rfl, fun _ => String.append_empty.symm⟩
  | some text =>
    obtain ⟨other, hother, hwrite⟩ := settled_bind_eq_ok_iff.mp h
    cases hwrite
    refine ⟨rfl, rfl, fun outlet => ?_⟩
    have hshare : outlet.share t.settings stream (some text) =
        if other = outlet then text else "" := by
      rw [Outlet.share, hother]
    rw [hshare]
    exact Console.text_push o.console other outlet text

theorem print_ok {id : Nat} {kind : DebugKind} {cadence : Cadence} {outlet : Option String}
    (h : Narrated.print t id kind cadence outlet o = (gs, .ok () o')) :
    o'.memory = o.memory ∧ (t.problem.Undisturbing → o'.env = o.env) ∧
      (∀ out, Console.text o'.console out = Console.text o.console out ++
        String.join (gs.map (Printing.textOn t.settings out))) ∧
      ((cadence.acts t.iteration t.stopped = true ∧ ∃ text u, content t id kind o = .ok text u ∧
          gs = [⟨id, ⟨kind, outlet⟩, o, .ok text u⟩]) ∨
        (¬ cadence.acts t.iteration t.stopped = true ∧ gs = [])) := by
  unfold Narrated.print at h
  by_cases hacts : cadence.acts t.iteration t.stopped = true
  · rw [if_pos hacts] at h
    obtain ⟨text, u, es, _, hask, hput, rfl⟩ := Scribe.bind_eq_ok_iff.mp h
    obtain ⟨hcontent, rfl⟩ := Scribe.entering_eq_ok_iff.mp hask
    obtain ⟨hwritten, rfl⟩ := Scribe.tacit_eq_ok_iff.mp hput
    obtain ⟨hmemory, hconsole, henv⟩ := content_ok hcontent
    obtain ⟨henv', hmemory', hconsole'⟩ := put_ok hwritten
    refine ⟨hmemory'.trans hmemory, fun hp => henv'.trans (henv hp), fun out => ?_,
      .inl ⟨hacts, text, u, hcontent, rfl⟩⟩
    rw [hconsole' out, hconsole]
    simp [Printing.textOn, Printing.text?]
  · rw [if_neg hacts] at h
    obtain ⟨-, rfl, rfl⟩ := Scribe.pure_eq_ok_iff.mp h
    exact ⟨rfl, fun _ => rfl, fun _ => String.append_empty.symm, .inr ⟨hacts, rfl⟩⟩

theorem ran_leaf {id : Nat} {kind : DebugKind} {cadence : Cadence} {outlet : Option String}
    (h : Narrated.runLeaf t id kind cadence outlet o = (gs, .ok () o')) :
    Ran t (leaf id kind cadence outlet).leaves o gs o' := by
  obtain ⟨_, mid, fs, _, hprint, hthen, rfl⟩ := Scribe.bind_eq_ok_iff.mp h
  obtain ⟨hrefresh, rfl⟩ := Scribe.tacit_eq_ok_iff.mp hthen
  obtain ⟨hmemory, henv, hconsole, hcases⟩ := print_ok hprint
  have refreshed : Observing.Refreshed t.state.x
      (if t.stopped then [] else (leaf id kind cadence outlet).watchers) mid o' :=
    .unless_stopped (refreshLeaf_ok t id kind cadence outlet mid) hrefresh
  rw [List.append_nil]
  refine ⟨?_, ?_, fun out => ?_, fun hp => refreshed.env.trans (henv hp), ?_⟩
  · rcases hcases with ⟨hacts, text, u, -, rfl⟩ | ⟨hacts, rfl⟩
    · simp [Leaf.sites, leaves, Leaf.acts_of_no_wrappers, hacts, Printing.site]
    · simp [Leaf.sites, leaves, Leaf.acts_of_no_wrappers, hacts]
  · rcases hcases with ⟨-, text, u, -, rfl⟩ | ⟨-, rfl⟩
    · intro g hg
      rw [List.mem_singleton.mp hg]
      exact ⟨text, u, rfl⟩
    · exact fun _ hg => absurd hg List.not_mem_nil
  · rw [refreshed.console, hconsole out]
  · refine (Observing.Kept.of_refreshed (watchers_subset_ids _) refreshed).of_same
      (fun i _ => ?_) fun i => ?_
    · rw [hmemory]
    · rw [hmemory]

theorem ran_each {as : List DebugAction}
    (hall : ∀ a ∈ as, ∀ {o gs o'}, Narrated.run t a o = (gs, .ok () o') → Ran t a.leaves o gs o')
    (h : Narrated.runEach t as o = (gs, .ok () o')) : Ran t (leavesEach as) o gs o' := by
  induction as generalizing o gs with
  | nil =>
    rw [Narrated.runEach] at h
    obtain ⟨-, rfl, rfl⟩ := Scribe.pure_eq_ok_iff.mp h
    exact .nil t _
  | cons a as ih =>
    obtain ⟨_, u, gs₁, gs₂, ha, has, rfl⟩ := Scribe.bind_eq_ok_iff.mp h
    have hfirst := hall a List.mem_cons_self ha
    have hothers := ih (fun b hb => hall b (List.mem_cons_of_mem a hb)) has
    rw [leavesEach]
    exact hfirst.append hothers

theorem run_ok {a : DebugAction} (h : Narrated.run t a o = (gs, .ok () o')) :
    Ran t a.leaves o gs o' := by
  induction a using induct generalizing o gs o' with
  | leaf id kind cadence outlet =>
    rw [Narrated.run] at h
    exact ran_leaf h
  | group members ih =>
    rw [Narrated.run] at h
    exact ran_each (fun a ha => ih a ha) h
  | every cadence a ih =>
    rw [Narrated.run] at h
    have hwatchers : watchersOf (every cadence a).leaves = a.watchers :=
      watchersOf_under cadence a.leaves
    have hids : (every cadence a).leaves.map Leaf.id = a.ids := ids_every cadence a
    by_cases hpassed : t.stopped = false → cadence.Hits t.iteration
    · rw [if_pos (Cadence.passes_iff.mpr hpassed)] at h
      have ran := ih h
      refine ⟨ran.sites.trans (Leaf.sites_under fun ℓ => ?_).symm, ran.texts, ran.console, ran.env,
        ?_⟩
      · rw [Leaf.acts_under, and_iff_left hpassed]
      · rw [hwatchers, hids]
        exact ran.kept
    · rw [if_neg fun hlets => hpassed (Cadence.passes_iff.mp hlets)] at h
      obtain ⟨hstopped, hmissed⟩ := Classical.not_imp.mp hpassed
      obtain ⟨hrefresh, rfl⟩ := Scribe.tacit_eq_ok_iff.mp h
      obtain ⟨w, hw, refreshed⟩ := refresh_ok t a o
      rw [hw] at hrefresh
      cases hrefresh
      have hheld : Leaf.sites (fun ℓ => ℓ.Acts t.iteration t.stopped) (every cadence a).leaves =
          [] := Leaf.sites_under_eq_nil fun ℓ => Leaf.acts_of_wrapper_missed hstopped hmissed
      refine ⟨hheld.symm, fun _ hg => absurd hg List.not_mem_nil, fun out => ?_,
        fun _ => refreshed.env, ?_⟩
      · rw [refreshed.console]
        exact String.append_empty.symm
      · rw [hwatchers, hids]
        refine .of_refreshed (watchers_subset_ids a) ?_
        rw [hstopped]
        exact refreshed

section Asked
variable {m : Nat → ActionMemory α}

/-- A question that one of the leaves `ℓs` is asked, at a moment at which its own memory is still the
one of `m`. -/
structure Asked (t : Moment ε α) (m : Nat → ActionMemory α) (ℓs : List (Leaf Printer))
    (g : Printing ε α) : Prop where
  outcome : g.outcome = content t g.id g.printer.kind g.before
  leaf : ∃ ℓ ∈ ℓs, (ℓ.id, ℓ.kind) = g.site
  memory : g.before.memory.get g.id = m g.id

theorem Asked.mono {ℓs ℓs' : List (Leaf Printer)} {g : Printing ε α} (h : Asked t m ℓs g)
    (hℓs : ∀ ℓ ∈ ℓs, ∃ ℓ' ∈ ℓs', (ℓ'.id, ℓ'.kind) = (ℓ.id, ℓ.kind)) : Asked t m ℓs' g := by
  obtain ⟨ℓ, hℓ, hsite⟩ := h.leaf
  obtain ⟨ℓ', hℓ', hsame⟩ := hℓs ℓ hℓ
  exact ⟨h.outcome, ⟨ℓ', hℓ', hsame.trans hsite⟩, h.memory⟩

theorem leads_leaf (id : Nat) (kind : DebugKind) (cadence : Cadence) (outlet : Option String) :
    Scribe.Leads (Narrated.runLeaf t id kind cadence outlet) (fun o => o.memory.get id = m id)
      (Asked t m (leaf id kind cadence outlet).leaves) fun _ => True := by
  have hprint : Scribe.Leads (Narrated.print t id kind cadence outlet)
      (fun o => o.memory.get id = m id) (Asked t m (leaf id kind cadence outlet).leaves)
      fun _ => True := by
    unfold Narrated.print
    split
    · refine .bind (.entering (fun o ho => ?_) fun _ _ _ _ _ => trivial) fun text => ?_
      · exact ⟨rfl, ⟨_, List.mem_singleton_self _, rfl⟩, ho⟩
      · exact .tacit fun _ _ _ h _ => h
    · exact (Scribe.Leads.pure ()).forget (fun _ ho => ho) fun _ hg => hg
  exact .bind hprint fun _ => .tacit fun _ _ _ h _ => h

theorem leads_each {as : List DebugAction} (distinct : (idsEach as).Nodup)
    (hall : ∀ a ∈ as, a.Distinct → Scribe.Leads (Narrated.run t a)
      (fun o => ∀ i ∈ a.ids, o.memory.get i = m i) (Asked t m a.leaves) fun _ => True) :
    Scribe.Leads (Narrated.runEach t as) (fun o => ∀ i ∈ idsEach as, o.memory.get i = m i)
      (Asked t m (leavesEach as)) fun _ => True := by
  induction as with
  | nil => exact (Scribe.Leads.pure ()).forget (fun _ ho => ho) fun _ hg => hg
  | cons a as ih =>
    obtain ⟨ha, has, hdisjoint⟩ := distinct_cons distinct
    have hrest := ih has fun b hb => hall b (List.mem_cons_of_mem a hb)
    have hfirst : Scribe.Leads (Narrated.run t a)
        (fun o => ∀ i ∈ idsEach (a :: as), o.memory.get i = m i)
        (Asked t m (leavesEach (a :: as))) fun o => ∀ i ∈ idsEach as, o.memory.get i = m i := by
      refine (hall a List.mem_cons_self ha).imp (fun o ho i hi => ?_) (fun g hg => ?_)
        fun o gs _ o' ho h i hi => ?_
      · rw [idsEach_cons, List.forall_mem_append] at ho
        exact ho.1 i hi
      · exact hg.mono fun ℓ hℓ => ⟨ℓ, List.mem_append_left _ hℓ, rfl⟩
      · have hi' : i ∉ a.ids := fun hmem => hdisjoint i hmem hi
        rw [idsEach_cons, List.forall_mem_append] at ho
        rw [(run_ok h).kept.spares i hi', ho.2 i hi]
    refine .bind hfirst fun _ => hrest.forget (fun _ ho => ho) fun g hg => ?_
    exact hg.mono fun ℓ hℓ => ⟨ℓ, List.mem_append_right _ hℓ, rfl⟩

theorem leads_run {a : DebugAction} (distinct : a.Distinct) :
    Scribe.Leads (Narrated.run t a) (fun o => ∀ i ∈ a.ids, o.memory.get i = m i)
      (Asked t m a.leaves) fun _ => True := by
  induction a using induct with
  | leaf id kind cadence outlet =>
    rw [Narrated.run]
    refine (leads_leaf id kind cadence outlet).forget (fun o ho => ?_) fun _ hg => hg
    exact ho id (List.mem_singleton_self id)
  | group members ih =>
    rw [Narrated.run]
    exact leads_each distinct ih
  | every cadence a ih =>
    rw [Narrated.run]
    have hids : (every cadence a).ids = a.ids := ids_every cadence a
    rw [Distinct, hids] at distinct
    rw [hids]
    split
    · refine (ih distinct).forget (fun _ ho => ho) fun g hg => ?_
      exact hg.mono fun ℓ hℓ => ⟨ℓ.under cadence, List.mem_map_of_mem hℓ, rfl⟩
    · exact .tacit fun _ _ _ _ _ => trivial

end Asked
end DebugAction
end Geodescent
