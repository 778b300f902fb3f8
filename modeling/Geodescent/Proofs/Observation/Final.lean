import Geodescent.Proofs.Observation.Log
import Geodescent.Proofs.Observation.Output
import Geodescent.Proofs.Run.Last

/-! What actions give at the stop, against what actions of the same kind gave in the last iteration.
Everything that is read off the options is the same at both moments. How far the run has moved is
not, since all memories have moved on to the last point when the stop is told: `final_law`. -/
namespace Geodescent

/-- The cost of a point is the same whenever it is asked for. -/
def Problem.Repeatable {ε α : Type} (p : Problem ε α) : Prop :=
  ∀ x env env' c c' u u', p.costAt x env = .ok c u → p.costAt x env' = .ok c' u' → c = c'

/-- Two moments at the same position after the same number of iterations. -/
structure Moment.Alike {ε α : Type} (t t' : Moment ε α) : Prop where
  problem : t'.problem = t.problem
  iteration : t'.iteration = t.iteration
  position : t'.state.position = t.state.position

theorem settled_unique {σ φ β γ : Type} {a : Except φ β} {f : β → γ} {s s' t t' : σ} {c c' : γ}
    (h : (settled a >>= fun b => pure (f b) : EStateM φ σ γ) s = .ok c t)
    (h' : (settled a >>= fun b => pure (f b) : EStateM φ σ γ) s' = .ok c' t') : c = c' := by
  obtain ⟨b, rfl, hpure⟩ := settled_bind_eq_ok_iff.mp h
  obtain ⟨_, hb, hpure'⟩ := settled_bind_eq_ok_iff.mp h'
  cases hb
  cases hpure
  cases hpure'
  rfl

section Alike
variable {ε α : Type} [Scalar α] {t t' : Moment ε α} {o o' u u' : Observing ε α} {id id' : Nat}

omit [Scalar α] in
theorem Moment.Alike.x (alike : t.Alike t') : t'.state.x = t.state.x :=
  congrArg Position.x alike.position

theorem Moment.Alike.gradientNorm (alike : t.Alike t') :
    Observing.gradientNorm t' = Observing.gradientNorm t := by
  simp only [Observing.gradientNorm, State.gradient, State.x, alike.position, alike.problem]

omit [Scalar α] in
theorem Moment.Alike.cost (alike : t.Alike t') (repeatable : t.problem.Repeatable) {c c' : α}
    (h : Observing.cost t o = .ok c u) (h' : Observing.cost t' o' = .ok c' u') : c = c' := by
  obtain ⟨_, hc, -⟩ := (Part.run_eq_ok_iff _).mp h
  obtain ⟨_, hc', -⟩ := (Part.run_eq_ok_iff _).mp h'
  rw [alike.problem, alike.x] at hc'
  exact repeatable _ _ _ _ _ _ _ hc hc'

namespace RecordAction

theorem capture_alike (alike : t.Alike t') (repeatable : t.problem.Repeatable) {kind : RecordKind}
    (other : kind ≠ .quantity .change) (running : kind ≠ .quantity .stop) {d d' : Datum α}
    (h : capture t id kind o = .ok d u) (h' : capture t' id' kind o' = .ok d' u') : d = d' := by
  rcases kind with token | _
  · cases token with
    | cost =>
      obtain ⟨c, _, hcost, hpure⟩ := sequence_eq_ok_iff.mp h
      obtain ⟨c', _, hcost', hpure'⟩ := sequence_eq_ok_iff.mp h'
      cases hpure
      cases hpure'
      rw [alike.cost repeatable hcost hcost']
    | gradientNorm =>
      rw [capture, alike.gradientNorm] at h'
      exact settled_unique h h'
    | stepsize =>
      rw [capture, alike.position] at h'
      exact settled_unique h h'
    | iteration =>
      cases h
      cases h'
      rw [alike.iteration]
    | iterate =>
      cases h
      cases h'
      rw [alike.position]
    | change => exact absurd rfl other
    | stop => exact absurd rfl running
  · cases h

theorem capture_change_ok {d : Datum α} (h : capture t id (.quantity .change) o = .ok d u) :
    ((o.memory.get id).previous = .none → ∃ c, t.state.lastChange.toReal = .ok c ∧ d = .real c) ∧
    ((o.memory.get id).previous ≠ .none →
      ∃ c, t.problem.manifold.dist (o.memory.get id).previous t.state.x = .ok c ∧ d = .real c) := by
  refine ⟨fun hnone => ?_, fun hsome => ?_⟩
  · rw [capture_change_of_none hnone] at h
    obtain ⟨c, hc, hpure⟩ := settled_bind_eq_ok_iff.mp h
    cases hpure
    exact ⟨c, refusing_eq_ok_iff.mp hc, rfl⟩
  · rw [capture_change_of_seen hsome] at h
    obtain ⟨c, hc, hpure⟩ := settled_bind_eq_ok_iff.mp h
    cases hpure
    exact ⟨c, hc, rfl⟩

end RecordAction

namespace DebugAction

theorem content_alike (alike : t.Alike t') (repeatable : t.problem.Repeatable) {kind : DebugKind}
    (other : ∀ label, kind ≠ .change label) (running : kind ≠ .stop) {text text' : Option String}
    (h : content t id kind o = .ok text u) (h' : content t' id' kind o' = .ok text' u') :
    text = text' := by
  cases kind with
  | cost label =>
    obtain ⟨c, _, hcost, hpure⟩ := sequence_eq_ok_iff.mp h
    obtain ⟨c', _, hcost', hpure'⟩ := sequence_eq_ok_iff.mp h'
    cases hpure
    cases hpure'
    rw [alike.cost repeatable hcost hcost']
  | iterate =>
    rw [content, alike.x] at h'
    exact settled_unique h h'
  | gradientNorm =>
    rw [content, alike.gradientNorm] at h'
    exact settled_unique h h'
  | stepsize =>
    rw [content] at h h'
    rw [alike.iteration, alike.position] at h'
    by_cases hpos : 0 < t.iteration
    · rw [if_pos hpos] at h h'
      exact settled_unique h h'
    · rw [if_neg hpos] at h h'
      cases h
      cases h'
      rfl
  | iteration =>
    cases h
    cases h'
    rw [alike.iteration]
  | divider _ | silent =>
    cases h
    cases h'
    rfl
  | change label => exact absurd rfl (other label)
  | stop => exact absurd rfl running

theorem content_change_ok {label : String} {text : Option String} (pos : 0 < t.iteration)
    (h : content t id (.change label) o = .ok text u) :
    ((o.memory.get id).previous = .none → text = none) ∧
    ((o.memory.get id).previous ≠ .none →
      ∃ c, t.problem.manifold.dist (o.memory.get id).previous t.state.x = .ok c ∧
        text = some (label ++ Scalar.brief c)) := by
  refine ⟨fun hnone => ?_, fun hsome => ?_⟩
  · rw [content_change_of_none hnone] at h
    cases h
    rfl
  · rw [content_change_of_seen hsome, if_pos pos] at h
    obtain ⟨c, hc, hpure⟩ := settled_bind_eq_ok_iff.mp h
    cases hpure
    exact ⟨c, hc, rfl⟩

end DebugAction
end Alike

namespace Solver
variable {ε α : Type} [Scalar α] {p : Problem ε α} {o : Options ε α}
  {chain : List (Decorator ε α)} {solver : Solver ε α} {d : Decorator ε α} {s t : Session ε α}
  {vs ws : List (Visit ε α)} {v w : Visit ε α} {n fuel : Nat} {phase : Phase} {x : Point α} {c : α}

/-- The end of a run of `n` iterations, whose last step starts in `x` and has the length `c`: what its
last hooks see, and what the actions remember when they hear them. -/
structure Finish (p : Problem ε α) (chain : List (Decorator ε α)) (n : Nat) (vs : List (Visit ε α))
    (x : Point α) (c : α) (t : Session ε α) : Prop where
  stepped : ∃ u ∈ vs, u.call = .step n ∧ u.before.state.x = x
  dist : p.manifold.dist x t.state.x = .ok c
  booked : t.state.lastChange = .real c
  heard : ∀ d ∈ chain, ∀ phase, phase ≠ .start → ∃ v ∈ vs, v.call = .hook phase n d
  position : ∀ v ∈ vs, v.call.done = n → v.before.state.position = t.state.position
  change : ∀ v ∈ vs, ∀ phase d, v.call = .hook phase n d → v.before.state.lastChange = .real c
  iterated : ∀ v ∈ vs, ∀ d ∈ chain, v.call = .hook .iteration n d → Watching d x v.before
  stopped : ∀ w ∈ vs, ∀ d ∈ chain, w.call = .hook .stop n d → Watching d t.state.x w.before

theorem finish_of_solve (apart : chain.Pairwise Decorator.Apart)
    (h : solve fuel p o chain solver s = .ok () t) (hn : t.state.iteration = .whole (Int.ofNat n))
    (pos : 0 < n) : ∃ x c, Finish p chain n (history fuel p o chain solver s) x c t := by
  obtain ⟨_, -, n', -, x, change, course⟩ := course_of_solve h
  obtain rfl : n' = n := by
    have hboth := course.closing.iteration.symm.trans hn
    cases hboth
    rfl
  obtain ⟨k, rfl⟩ := Nat.exists_eq_succ_of_ne_zero (Nat.ne_of_gt pos)
  obtain ⟨earlier, step, m, ending, round⟩ := lastRound_of_solve h hn pos
  have settled := (round.settled course.performed).1
  have before (u) (hu : u ∈ history fuel p o chain solver s) (hcall : u.call = .step (k + 1)) :
      u.before.state.x = x k := by
    have hshows := (course.lawful u hu).shows (by rw [hcall]; exact nofun)
    rw [hcall] at hshows
    exact hshows.x
  have hstep : step ∈ history fuel p o chain solver s := by
    rw [round.split]
    exact List.mem_append_right _ List.mem_cons_self
  have hlast : ∀ v ∈ history fuel p o chain solver s, v.call.done = k + 1 → v ∈ ending :=
    fun v hv hdone => round.mem_ending hv hdone pos
  have hend := course.closing
  refine ⟨x k, change (k + 1), ⟨step, hstep, round.call, before step hstep round.call⟩,
    hend.x ▸ course.dist k (Nat.lt_succ_self k), hend.lastChange, fun d hd phase hphase => ?_,
    fun v hv hdone => (settled v (hlast v hv hdone)).1, fun v hv phase d hcall => ?_,
    fun v hv d hd hcall => ?_, fun w hw d hd hcall => ?_⟩
  · -- every decorator hears of the last iteration and of the stop
    have hmem : Call.hook phase (k + 1) d ∈ ending.map Visit.call := by
      rw [round.calls, List.mem_append, List.mem_cons]
      cases phase with
      | start => exact absurd rfl hphase
      | iteration => exact .inl (List.mem_map_of_mem hd)
      | stop => exact .inr (.inr (List.mem_map_of_mem hd))
    obtain ⟨v, hv, hcall⟩ := List.mem_map.mp hmem
    exact ⟨v, round.mem_vs hv, hcall⟩
  · have hshows := (course.lawful v hv).shows (by rw [hcall]; exact nofun)
    rw [hcall] at hshows
    exact hshows.lastChange
  · -- in an iteration what is remembered is the point from which its step went
    obtain ⟨pre, post, rfl, hpre, hpost⟩ := Decorator.exists_split apart hd
    obtain ⟨-, u, hu, hucall, informed⟩ := explained_history hpre hpost fuel s v hv (k + 1) hcall
    exact before u hu hucall ▸ informed.watching
  · exact round.watching course.performed apart hd (hlast w hw (by rw [hcall]; rfl)) hcall

section Records
variable {g : RecordAction} {ℓ ℓ' : Leaf RecordKind} {last final : Datum α}

/-- The value that a leaf gave in a call, asked with the memory that it had before. -/
def Visit.Gives (p : Problem ε α) (phase : Phase) (n : Nat) (v : Visit ε α) (ℓ : Leaf RecordKind)
    (d : Datum α) : Prop :=
  v.values p ℓ.id = [d] ∧ ∃ o u, o.memory.get ℓ.id = v.before.memory.get ℓ.id ∧
    RecordAction.capture (told p phase n v.before) ℓ.id ℓ.kind o = .ok d u

theorem Visit.Captured.gives (captured : v.Captured p g phase n) (hℓ : ℓ ∈ g.leaves)
    (hacts : ℓ.Acts (Int.ofNat n) (phase = .stop)) : ∃ d, v.Gives p phase n ℓ d := by
  obtain ⟨c, -, -, houtcome, hmemory, d, u, hd, hvalue⟩ := captured.acting ℓ hℓ hacts
  exact ⟨d, hvalue, c.before, u, hmemory, houtcome.symm.trans hd⟩

theorem Logged.values_of_leaf {moments : List (Phase × Nat)} (logged : Logged p g moments vs ws t)
    (hℓ : ℓ ∈ g.leaves) :
    (t.memory.get ℓ.id).recorded.toList = ws.flatMap fun v => v.values p ℓ.id :=
  logged.recorded _ (RecordAction.leaf_mem_nodes hℓ)

theorem Logged.split (logged : Logged p g (beats n) vs ws t) (pos : 0 < n) :
    ∃ us v w, ws = us ++ [v] ++ [w] ∧ v.call = .hook .iteration n (.record g) ∧
      w.call = .hook .stop n (.record g) ∧
      ∀ u ∈ us ++ [v], ∃ k, u.call = .hook .iteration k (.record g) := by
  obtain ⟨k, rfl⟩ := Nat.exists_eq_succ_of_ne_zero (Nat.ne_of_gt pos)
  have hbeats : beats (k + 1) = laps k ++ [(.iteration, k + 1)] ++ [(.stop, k + 1)] := by
    simp [beats, laps, List.range'_1_concat, Nat.add_comm 1]
  have hcalls := logged.calls
  rw [hbeats, hooksAt, List.map_append] at hcalls
  obtain ⟨running, stops, rfl, hrunning, hstops⟩ := List.map_eq_append_iff.mp hcalls
  obtain ⟨w, rfl, hw⟩ := List.map_eq_singleton_iff.mp hstops
  have hiterations : ∀ u ∈ running, ∃ k, u.call = .hook .iteration k (.record g) := by
    intro u hu
    have hmem : u.call ∈ running.map Visit.call := List.mem_map_of_mem hu
    rw [hrunning] at hmem
    obtain ⟨m, hm, hcall⟩ := List.mem_map.mp hmem
    rcases List.mem_append.mp hm with hm | hm
    · obtain ⟨j, -, rfl⟩ := List.mem_map.mp hm
      exact ⟨j, hcall.symm⟩
    · rw [List.mem_singleton.mp hm] at hcall
      exact ⟨k + 1, hcall.symm⟩
  rw [List.map_append] at hrunning
  obtain ⟨us, lasts, rfl, -, hlasts⟩ := List.map_eq_append_iff.mp hrunning
  obtain ⟨v, rfl, hv⟩ := List.map_eq_singleton_iff.mp hlasts
  exact ⟨us, v, w, rfl, hv, hw, hiterations⟩

theorem Logged.latest (logged : Logged p g (beats n) vs ws t) (pos : 0 < n) (hℓ : ℓ ∈ g.leaves)
    (hacts : ℓ.Acts (Int.ofNat n) false) :
    ∃ v ∈ vs, v.call = .hook .iteration n (.record g) ∧ ∃ d, v.Gives p .iteration n ℓ d ∧
      (t.memory.get ℓ.id).recorded.toList.getLast? = some d := by
  obtain ⟨us, v, w, rfl, hv, hw, -⟩ := logged.split pos
  have hvmem : v ∈ us ++ [v] ++ [w] := by simp
  have hwmem : w ∈ us ++ [v] ++ [w] := by simp
  obtain ⟨d, hd⟩ := (logged.captured v hvmem .iteration n hv).gives hℓ hacts
  -- at the stop it rests, so that nothing comes after the value of the last iteration
  have hrests : w.values p ℓ.id = [] := by
    refine (logged.captured w hwmem .stop n hw).resting ℓ hℓ fun hstop => ?_
    have hcadence := Leaf.acts_stopped.mp hstop
    rw [(Leaf.acts_running.mp hacts).1.1] at hcadence
    cases hcadence
  refine ⟨v, logged.sublist.subset hvmem, hv, d, hd, ?_⟩
  rw [logged.values_of_leaf hℓ]
  simp [hd.1, hrests]

theorem Logged.only (logged : Logged p g (beats n) vs ws t) (pos : 0 < n) (hℓ : ℓ ∈ g.leaves)
    (hstop : ℓ.cadence.atStop = true) :
    ∃ w ∈ vs, w.call = .hook .stop n (.record g) ∧ ∃ d, w.Gives p .stop n ℓ d ∧
      (t.memory.get ℓ.id).recorded.toList = [d] := by
  obtain ⟨us, v, w, rfl, -, hw, hiterations⟩ := logged.split pos
  have hwmem : w ∈ us ++ [v] ++ [w] := by simp
  obtain ⟨d, hd⟩ := (logged.captured w hwmem .stop n hw).gives hℓ (Leaf.acts_stopped.mpr hstop)
  have hrests : (us ++ [v]).flatMap (fun u => u.values p ℓ.id) = [] := by
    refine List.flatMap_eq_nil_iff.mpr fun u hu => ?_
    obtain ⟨k, hk⟩ := hiterations u hu
    have captured := logged.captured u (List.mem_append_left [w] hu) .iteration k hk
    refine captured.resting ℓ hℓ fun hacts => ?_
    rw [(Leaf.acts_running.mp hacts).1.1] at hstop
    cases hstop
  refine ⟨w, logged.sublist.subset hwmem, hw, d, hd, ?_⟩
  rw [logged.values_of_leaf hℓ, List.flatMap_append, hrests, List.flatMap_singleton, hd.1,
    List.nil_append]

/-- What a leaf gave at the stop of a run that ended with a step of the length `c`, where one of its
kind gave `last` in the last iteration. A leaf that measures how far the run has moved measures from
the last point to itself. -/
inductive Echo (p : Problem ε α) (t : Session ε α) (c : α) : RecordKind → Datum α → Datum α → Prop
  | same {kind : RecordKind} (other : kind ≠ .quantity .change) (d : Datum α) : Echo p t c kind d d
  | still {e : α} (seen : t.state.x ≠ .none) (dist : p.manifold.dist t.state.x t.state.x = .ok e) :
      Echo p t c (.quantity .change) (.real c) (.real e)
  | unseen (nothing : t.state.x = .none) : Echo p t c (.quantity .change) (.real c) (.real c)

theorem change_of_gives (watching : Watching (.record g) x v.before) (hℓ : ℓ ∈ g.leaves)
    (hkind : ℓ.kind = .quantity .change) {d : Datum α} (gives : v.Gives p phase n ℓ d)
    (hlast : v.before.state.lastChange = .real c) :
    (x = .none → d = .real c) ∧
      (x ≠ .none → ∃ e, p.manifold.dist x v.before.state.x = .ok e ∧ d = .real e) := by
  obtain ⟨-, o, u, hmemory, hcapture⟩ := gives
  rw [hkind] at hcapture
  have hprevious : (o.memory.get ℓ.id).previous = x := by
    rw [hmemory]
    exact watching ℓ.id (RecordAction.mem_watchers hℓ hkind)
  obtain ⟨hnone, hsome⟩ := RecordAction.capture_change_ok hcapture
  rw [hprevious] at hnone hsome
  refine ⟨fun hx => ?_, hsome⟩
  obtain ⟨e, he, hd⟩ := hnone hx
  have hbooked : (told p phase n v.before).state.lastChange = .real c := hlast
  rw [hbooked, Datum.toReal_real] at he
  cases he
  exact hd

theorem Finish.echo (fin : Finish p chain n vs x c t) (repeatable : p.Repeatable)
    (hg : .record g ∈ chain) {g' : RecordAction} (hg' : .record g' ∈ chain) (hv : v ∈ vs)
    (hw : w ∈ vs) (hvcall : v.call = .hook .iteration n (.record g))
    (hwcall : w.call = .hook .stop n (.record g')) (hℓ : ℓ ∈ g.leaves) (hℓ' : ℓ' ∈ g'.leaves)
    (hkind : ℓ'.kind = ℓ.kind) (running : ℓ.kind ≠ .quantity .stop)
    (hlast : v.Gives p .iteration n ℓ last) (hfinal : w.Gives p .stop n ℓ' final) :
    Echo p t c ℓ.kind last final := by
  have hvx := fin.position v hv (by rw [hvcall]; rfl)
  have hwx := fin.position w hw (by rw [hwcall]; rfl)
  by_cases hchange : ℓ.kind = .quantity .change
  · obtain ⟨hnone, hsome⟩ := change_of_gives (fin.iterated v hv _ hg hvcall) hℓ hchange hlast
      (fin.change v hv _ _ hvcall)
    obtain ⟨hnone', hsome'⟩ := change_of_gives (fin.stopped w hw _ hg' hwcall) hℓ'
      (hkind.trans hchange) hfinal (fin.change w hw _ _ hwcall)
    have hx : v.before.state.x = t.state.x := congrArg Position.x hvx
    have hx' : w.before.state.x = t.state.x := congrArg Position.x hwx
    -- from nowhere the length is taken from the books, where the step has left the same one
    obtain rfl : last = .real c := by
      by_cases h : x = .none
      · exact hnone h
      · obtain ⟨e, he, rfl⟩ := hsome h
        rw [hx, fin.dist] at he
        cases he
        rfl
    rw [hchange]
    by_cases h : t.state.x = .none
    · rw [hnone' h]
      exact .unseen h
    · obtain ⟨e, he, rfl⟩ := hsome' h
      exact .still h (hx' ▸ he)
  · obtain ⟨-, o, u, -, hcapture⟩ := hlast
    obtain ⟨-, o', u', -, hcapture'⟩ := hfinal
    rw [hkind] at hcapture'
    have alike : (told p .iteration n v.before).Alike (told p .stop n w.before) :=
      ⟨rfl, rfl, hwx.trans hvx.symm⟩
    rw [← RecordAction.capture_alike alike repeatable hchange running hcapture hcapture']
    exact .same hchange last

end Records

section Texts
variable {a : DebugAction} {ℓ ℓ' : Leaf DebugAction.Printer} {text last final : Option String}

def Visit.Tells (p : Problem ε α) (phase : Phase) (n : Nat) (v : Visit ε α)
    (ℓ : Leaf DebugAction.Printer) (text : Option String) : Prop :=
  ∃ q ∈ v.printings p, q.site = (ℓ.id, ℓ.kind) ∧
    q.before.memory.get ℓ.id = v.before.memory.get ℓ.id ∧ ∃ u, q.outcome = .ok text u ∧
      DebugAction.content (told p phase n v.before) ℓ.id ℓ.kind.kind q.before = .ok text u

theorem Visit.Printed.tells (printed : v.Printed p a phase n) (hℓ : ℓ ∈ a.leaves)
    (hacts : ℓ.Acts (Int.ofNat n) (phase = .stop)) : ∃ text, v.Tells p phase n ℓ text := by
  have hmem : (ℓ.id, ℓ.kind) ∈ (v.printings p).map Printing.site := by
    rw [printed.sites]
    exact List.mem_map_of_mem (List.mem_filter.mpr ⟨hℓ, decide_eq_true hacts⟩)
  obtain ⟨q, hq, hsite⟩ := List.mem_map.mp hmem
  obtain ⟨houtcome, hmemory, text, u, htext⟩ := printed.asked q hq
  obtain ⟨hid, hkind⟩ := Prod.mk.inj hsite
  rw [hid] at hmemory
  rw [hid, hkind] at houtcome
  exact ⟨text, q, hq, hsite, hmemory, u, htext, houtcome.symm.trans htext⟩

def shownChange (label : String) (x : Point α) (c : α) : Option String :=
  match x with
  | .none => none
  | _ => some (label ++ Scalar.brief c)

inductive EchoText (p : Problem ε α) (t : Session ε α) (x : Point α) (c : α) :
    DebugKind → Option String → Option String → Prop
  | same {kind : DebugKind} (other : ∀ label, kind ≠ .change label) (text : Option String) :
      EchoText p t x c kind text text
  | still {e : α} (label : String)
      (dist : t.state.x ≠ .none → p.manifold.dist t.state.x t.state.x = .ok e) :
      EchoText p t x c (.change label) (shownChange label x c) (shownChange label t.state.x e)

theorem shownChange_of_tells (watching : Watching (.debug a) x v.before) (hℓ : ℓ ∈ a.leaves)
    {label : String} (hkind : ℓ.kind.kind = .change label) (pos : 0 < n)
    (tells : v.Tells p phase n ℓ text) :
    ∃ e, text = shownChange label x e ∧
      (x ≠ .none → p.manifold.dist x v.before.state.x = .ok e) := by
  obtain ⟨q, -, -, hmemory, u, -, hcontent⟩ := tells
  rw [hkind] at hcontent
  have hprevious : (q.before.memory.get ℓ.id).previous = x := by
    rw [hmemory]
    exact watching ℓ.id (DebugAction.mem_watchers hℓ hkind)
  obtain ⟨hnone, hsome⟩ := DebugAction.content_change_ok (Int.natCast_pos.mpr pos) hcontent
  rw [hprevious] at hnone hsome
  by_cases hx : x = .none
  · subst hx
    exact ⟨0, hnone rfl, fun h => absurd rfl h⟩
  · obtain ⟨e, he, htext⟩ := hsome hx
    refine ⟨e, htext.trans ?_, fun _ => he⟩
    unfold shownChange
    split
    · exact absurd rfl hx
    · rfl

theorem Finish.echoText (fin : Finish p chain n vs x c t) (repeatable : p.Repeatable) (pos : 0 < n)
    (ha : .debug a ∈ chain) {a' : DebugAction} (ha' : .debug a' ∈ chain) (hv : v ∈ vs)
    (hw : w ∈ vs) (hvcall : v.call = .hook .iteration n (.debug a))
    (hwcall : w.call = .hook .stop n (.debug a')) (hℓ : ℓ ∈ a.leaves) (hℓ' : ℓ' ∈ a'.leaves)
    (hkind : ℓ'.kind.kind = ℓ.kind.kind) (running : ℓ.kind.kind ≠ .stop)
    (hlast : v.Tells p .iteration n ℓ last) (hfinal : w.Tells p .stop n ℓ' final) :
    EchoText p t x c ℓ.kind.kind last final := by
  have hvx := fin.position v hv (by rw [hvcall]; rfl)
  have hwx := fin.position w hw (by rw [hwcall]; rfl)
  by_cases hchange : ∃ label, ℓ.kind.kind = .change label
  · obtain ⟨label, hlabel⟩ := hchange
    obtain ⟨e, rfl, he⟩ :=
      shownChange_of_tells (fin.iterated v hv _ ha hvcall) hℓ hlabel pos hlast
    obtain ⟨e', rfl, he'⟩ :=
      shownChange_of_tells (fin.stopped w hw _ ha' hwcall) hℓ' (hkind.trans hlabel) pos hfinal
    have hx : v.before.state.x = t.state.x := congrArg Position.x hvx
    have hx' : w.before.state.x = t.state.x := congrArg Position.x hwx
    have hshown : shownChange label x e = shownChange label x c := by
      by_cases h : x = .none
      · rw [h]
        rfl
      · have hdist := he h
        rw [hx, fin.dist] at hdist
        cases hdist
        rfl
    rw [hlabel, hshown]
    exact .still label fun h => hx' ▸ he' h
  · obtain ⟨q, -, -, -, u, -, hcontent⟩ := hlast
    obtain ⟨q', -, -, -, u', -, hcontent'⟩ := hfinal
    rw [hkind] at hcontent'
    have other : ∀ label, ℓ.kind.kind ≠ .change label := fun label h => hchange ⟨label, h⟩
    have alike : (told p .iteration n v.before).Alike (told p .stop n w.before) :=
      ⟨rfl, rfl, hwx.trans hvx.symm⟩
    rw [← DebugAction.content_alike alike repeatable other running hcontent hcontent']
    exact .same other last

end Texts

/-- Of the leaf `ℓ` of a record, which acts in the last iteration, and `ℓ'`, which waits for the stop:
the last value of the one and the only value of the other. -/
structure RecordsEcho (p : Problem ε α) (n : Nat) (vs : List (Visit ε α)) (c : α) (t : Session ε α)
    (g g' : RecordAction) (ℓ ℓ' : Leaf RecordKind) (last final : Datum α) : Prop where
  iterated : ∃ v ∈ vs, v.call = .hook .iteration n (.record g) ∧ v.values p ℓ.id = [last]
  stopped : ∃ w ∈ vs, w.call = .hook .stop n (.record g') ∧ w.values p ℓ'.id = [final]
  latest : (t.memory.get ℓ.id).recorded.toList.getLast? = some last
  only : (t.memory.get ℓ'.id).recorded.toList = [final]
  echo : Echo p t c ℓ.kind last final

structure TextsEcho (p : Problem ε α) (n : Nat) (vs : List (Visit ε α)) (x : Point α) (c : α)
    (t : Session ε α) (a a' : DebugAction) (ℓ ℓ' : Leaf DebugAction.Printer)
    (last final : Option String) : Prop where
  iterated : ∃ v ∈ vs, v.call = .hook .iteration n (.debug a) ∧
    ∃ q ∈ v.printings p, q.site = (ℓ.id, ℓ.kind) ∧ ∃ u, q.outcome = .ok last u
  stopped : ∃ w ∈ vs, w.call = .hook .stop n (.debug a') ∧
    ∃ q ∈ w.printings p, q.site = (ℓ'.id, ℓ'.kind) ∧ ∃ u, q.outcome = .ok final u
  echo : EchoText p t x c ℓ.kind.kind last final

/-- What is told at the stop, against the last iteration. In a run with at least one step, actions
that wait for the stop give what actions of their kind gave in the last iteration, whatever stands
above them. Only how far the run has moved is measured from the last point to itself. -/
theorem final_law (apart : chain.Pairwise Decorator.Apart) (distinct : ∀ d ∈ chain, d.Distinct)
    (repeatable : p.Repeatable) (h : solve fuel p o chain solver s = .ok () t)
    (hn : t.state.iteration = .whole (Int.ofNat n)) (pos : 0 < n) :
    ∃ x c, (∃ u ∈ history fuel p o chain solver s, u.call = .step n ∧ u.before.state.x = x) ∧
      p.manifold.dist x t.state.x = .ok c ∧ t.state.lastChange = .real c ∧
      (∀ g g', .record g ∈ chain → .record g' ∈ chain → ∀ ℓ ∈ g.leaves, ∀ ℓ' ∈ g'.leaves,
        ℓ.Acts (Int.ofNat n) false → ℓ'.cadence.atStop = true → ℓ'.kind = ℓ.kind →
        ℓ.kind ≠ .quantity .stop → ∃ last final,
          RecordsEcho p n (history fuel p o chain solver s) c t g g' ℓ ℓ' last final) ∧
      ∀ a a', .debug a ∈ chain → .debug a' ∈ chain → ∀ ℓ ∈ a.leaves, ∀ ℓ' ∈ a'.leaves,
        ℓ.Acts (Int.ofNat n) false → ℓ'.cadence.atStop = true → ℓ'.kind.kind = ℓ.kind.kind →
        ℓ.kind.kind ≠ .stop → ∃ last final,
          TextsEcho p n (history fuel p o chain solver s) x c t a a' ℓ ℓ' last final := by
  obtain ⟨x, c, fin⟩ := finish_of_solve apart h hn pos
  refine ⟨x, c, fin.stepped, fin.dist, fin.booked, ?_, ?_⟩
  · intro g g' hg hg' ℓ hℓ ℓ' hℓ' hacts hstop hkind running
    obtain ⟨_, logged⟩ := logged_of_solve apart hg (distinct _ hg) h hn
    obtain ⟨_, logged'⟩ := logged_of_solve apart hg' (distinct _ hg') h hn
    obtain ⟨v, hv, hvcall, last, hlast, hlatest⟩ := logged.latest pos hℓ hacts
    obtain ⟨w, hw, hwcall, final, hfinal, honly⟩ := logged'.only pos hℓ' hstop
    exact ⟨last, final, ⟨v, hv, hvcall, hlast.1⟩, ⟨w, hw, hwcall, hfinal.1⟩, hlatest, honly,
      fin.echo repeatable hg hg' hv hw hvcall hwcall hℓ hℓ' hkind running hlast hfinal⟩
  · intro a a' ha ha' ℓ hℓ ℓ' hℓ' hacts hstop hkind running
    obtain ⟨_, -, linked⟩ := linked_of_solve h
    have printed {a : DebugAction} {phase : Phase} {v : Visit ε α} (ha : .debug a ∈ chain)
        (hv : v ∈ history fuel p o chain solver s) (hcall : v.call = .hook phase n (.debug a)) :
        v.Printed p a phase n := by
      obtain ⟨b, u, hu⟩ := linked.returned v hv
      rw [outcome_of_mem_history hv] at hu
      exact printed_of_visit (distinct _ ha) hcall hu
    obtain ⟨v, hv, hvcall⟩ := fin.heard _ ha .iteration nofun
    obtain ⟨w, hw, hwcall⟩ := fin.heard _ ha' .stop nofun
    obtain ⟨last, hlast⟩ := (printed ha hv hvcall).tells hℓ hacts
    obtain ⟨final, hfinal⟩ := (printed ha' hw hwcall).tells hℓ' (Leaf.acts_stopped.mpr hstop)
    have hecho := fin.echoText repeatable pos ha ha' hv hw hvcall hwcall hℓ hℓ' hkind running
      hlast hfinal
    obtain ⟨q, hq, hsite, -, u, hu, -⟩ := hlast
    obtain ⟨q', hq', hsite', -, u', hu', -⟩ := hfinal
    exact ⟨last, final, ⟨v, hv, hvcall, q, hq, hsite, u, hu⟩,
      ⟨w, hw, hwcall, q', hq', hsite', u', hu'⟩, hecho⟩

def epilogue : List (Decorator Unit Float) :=
  [.debug (.group [.leaf 0 (.change "moved ") .always none,
      .every .everySecond (.leaf 1 (.change ", moved ") .onlyAtStop none)]),
    .record (.group 2 [.leaf 3 (.quantity .change) .always, .leaf 4 (.quantity .iterate) .always,
      .every .everyThird (.group 5 [.leaf 6 (.quantity .change) .onlyAtStop,
        .leaf 7 (.quantity .iterate) .onlyAtStop])])]

theorem final_law_counting :
    ∃ t last, solve 3 line twice epilogue counting origin = .ok () t ∧
      t.state.iteration = .whole 2 ∧
      (t.memory.get 4).recorded.toList.getLast? = some last ∧
      (t.memory.get 7).recorded.toList = [last] := by
  obtain ⟨_, t, ht, hn⟩ : ∃ b t, solve 3 line twice epilogue counting origin = .ok b t ∧
      t.state.iteration = .whole 2 := by
    decide +kernel
  have apart : epilogue.Pairwise Decorator.Apart := by
    refine List.pairwise_pair.mpr ⟨?_, ?_⟩
    · show ∀ i ∈ [2, 3, 4, 5, 6, 7], i ∉ [0, 1]
      decide
    · show ∀ i ∈ [0, 1], i ∉ [2, 3, 4, 5, 6, 7]
      decide
  have distinct : ∀ d ∈ epilogue, d.Distinct := by
    refine List.forall_mem_cons.mpr ⟨?_, List.forall_mem_singleton.mpr ?_⟩
    · show [0, 1].Nodup
      decide
    · show [2, 3, 4, 5, 6, 7].Nodup
      decide
  have repeatable : line.Repeatable := by
    intro x env env' c c' u u' hc hc'
    cases hc
    cases hc'
    rfl
  obtain ⟨x, c, -, -, -, records, -⟩ := final_law apart distinct repeatable ht hn Nat.two_pos
  obtain ⟨last, final, hecho⟩ := records _ _ (List.mem_cons_of_mem _ (List.mem_singleton_self _))
    (List.mem_cons_of_mem _ (List.mem_singleton_self _)) ⟨4, .quantity .iterate, .always, []⟩
    (by simp [RecordAction.leaves, RecordAction.leavesEach])
    ⟨7, .quantity .iterate, .onlyAtStop, [.everyThird]⟩
    (by simp [RecordAction.leaves, RecordAction.leavesEach, Leaf.under]) (by decide) rfl rfl nofun
  have hsame : final = last := by
    cases hecho.echo
    rfl
  exact ⟨t, last, ht, hn, hecho.latest, hsame ▸ hecho.only⟩

/-- In every iteration the run moves by one, and at the stop it has not moved. -/
theorem not_last_change_at_stop :
    ∃ b t, solve 3 line twice epilogue counting origin = .ok b t ∧
      ((t.memory.get 3).recorded.toList.length = 2 ∧
        ∀ d ∈ (t.memory.get 3).recorded.toList, d = .real 1) ∧
      ((t.memory.get 6).recorded.toList.length = 1 ∧
        ∀ d ∈ (t.memory.get 6).recorded.toList, d = .real 0) ∧
      t.console.text .standard = "moved 1moved 1, moved 0" := by
  decide +kernel

end Solver
end Geodescent
