import Geodescent.Proofs.Criterion.Streak

/-! The reasons of a tree. Whatever texts were left in its nodes, a node that holds gives the reasons
of this very call, and a node that does not hold keeps the text it had: `reason_law`. -/
namespace Geodescent

theorem filterMap_zip_map {β : Type} (f : β → String) (holds : β → Bool) (bs : List β) :
    ((bs.zip (bs.map holds)).filterMap fun (b, answer) => if answer then some (f b) else none) =
      (bs.filter holds).map f := by
  induction bs with
  | nil => rfl
  | cons b bs ih =>
    rw [List.map_cons, List.zip_cons_cons, List.filterMap_cons, List.filter_cons]
    cases holds b with
    | true => simpa using ih
    | false => simpa using ih

namespace Series
variable {ε α : Type} [Scalar α]

def reason (S : Series ε α) (k : Nat) (d : Criterion ε α) : String :=
  ((S.memory (k + 1)).get d.id).reason

/-- An atom was found to hold in an iteration, with this text. -/
def Tells (S : Series ε α) (k : Nat) (id : Nat) (text : String) : Prop :=
  ∃ check, .checked id check (.ok (Check.told text)) ∈ S.events k

/-- The right reason for a node that holds: for an atom the text of this call, for a disjunction the
reasons of the members that hold, and for a conjunction the reason of the leftmost among the members
whose streaks began latest. -/
def Explains (S : Series ε α) (k : Nat) : Criterion ε α → Prop
  | .atom id check => S.Tells k id (S.reason k (.atom id check))
  | .any id members => S.reason k (.any id members) =
      "\n".intercalate ((members.filter fun e => S.holdsAt e k).map (S.reason k))
  | .all id members => ∃ pre e post, members = pre ++ e :: post ∧
      S.reason k (.all id members) = S.reason k e ∧
      (∀ x ∈ pre, streakStart (S.holdsAt x) k < streakStart (S.holdsAt e) k) ∧
      ∀ x ∈ post, streakStart (S.holdsAt x) k ≤ streakStart (S.holdsAt e) k

/-- A reason made of texts of this call, each from an atom of the node that holds. -/
def Segmented (S : Series ε α) (k : Nat) (d : Criterion ε α) (reason : String) : Prop :=
  ∃ parts : List (Nat × String), parts ≠ [] ∧ reason = "\n".intercalate (parts.map Prod.snd) ∧
    ∀ part ∈ parts, part.1 ∈ d.atoms.map Prod.fst ∧ S.truth k part.1 = true ∧
      S.Tells k part.1 part.2

variable {S : Series ε α} {k m : Nat} {d e : Criterion ε α}

theorem holdsAt_all {id : Nat} {members : List (Criterion ε α)}
    (h : S.holdsAt (.all id members) k = true) : ∀ e ∈ members, S.holdsAt e k = true := by
  unfold holdsAt Criterion.holds at h
  rw [Criterion.holdsAll_eq_all, List.all_eq_true] at h
  exact h

theorem holdsAt_any {id : Nat} {members : List (Criterion ε α)}
    (h : S.holdsAt (.any id members) k = true) : ∃ e ∈ members, S.holdsAt e k = true := by
  unfold holdsAt Criterion.holds at h
  rw [Criterion.holdsAny_eq_any, List.any_eq_true] at h
  exact h

theorem reason_eq (distinct : S.criterion.Distinct) (calm : ∀ e ∈ S.events k, e.Calm)
    (hd : d ∈ S.criterion.nodes) (h : S.holdsAt d k = true) :
    S.reason k d = d.explained (S.heard k) (S.memory (k + 1)) := by
  obtain ⟨_, -, -, asked⟩ := call_spec distinct calm
  exact (asked.noted d hd).reason.trans (if_pos h)

theorem tells_of_heard (distinct : S.criterion.Distinct) (calm : ∀ e ∈ S.events k, e.Calm)
    {id : Nat} {check : Check ε α} (hd : .atom id check ∈ S.criterion.nodes) {text : String}
    (h : S.heard k id = some text) : S.Tells k id text := by
  obtain ⟨_, -, hevents, -⟩ := call_spec distinct calm
  refine ⟨check, ?_⟩
  rw [hevents]
  refine List.mem_flatMap.mpr ⟨_, hd, ?_⟩
  change _ ∈ [Event.checked id check (.ok ((S.heard k id).map .ok)), _]
  rw [h]
  exact List.mem_cons_self

theorem explains_of_holds (distinct : S.criterion.Distinct) (filled : S.criterion.Filled)
    (calm : ∀ i ≤ k, ∀ e ∈ S.events i, e.Calm) (hd : d ∈ S.criterion.nodes)
    (h : S.holdsAt d k = true) : S.Explains k d := by
  have calmₖ := calm k (Nat.le_refl k)
  have hreason := reason_eq distinct calmₖ hd h
  cases d with
  | atom id check =>
    have htruth : (S.heard k id).isSome = true := h
    obtain ⟨text, htext⟩ := Option.isSome_iff_exists.mp htruth
    have hr : S.reason k (.atom id check) = text := by
      rw [hreason]
      change (S.heard k id).getD "" = text
      rw [htext]
      rfl
    change S.Tells k id (S.reason k (.atom id check))
    rw [hr]
    exact tells_of_heard distinct calmₖ hd htext
  | any id members =>
    change S.reason k (.any id members) = _
    rw [hreason]
    change Criterion.reasonOfAny _ members (members.map fun e => S.holdsAt e k) = _
    unfold Criterion.reasonOfAny
    rw [filterMap_zip_map fun e : Criterion ε α => ((S.memory (k + 1)).get e.id).reason]
    rfl
  | all id members =>
    cases members with
    | nil => cases filled _ hd rfl
    | cons c cs =>
      obtain ⟨pre, post, hsplit, hpre, hpost⟩ :=
        Criterion.latest_split (S.memory (k + 1)) c cs
      have hlatest := Criterion.latest_mem (S.memory (k + 1)) c cs
      -- a conjunction that holds compares the starts of streaks, as all its members hold
      have hsince : ∀ e ∈ c :: cs, ((S.memory (k + 1)).get e.id).since =
          Int.ofNat (streakStart (S.holdsAt e) k) := by
        intro e he
        rw [since_eq distinct calm (Criterion.mem_nodes_of_child hd he),
          if_pos (holdsAt_all h e he)]
      refine ⟨pre, _, post, hsplit, hreason, fun x hx => ?_, fun x hx => ?_⟩
      · have hlt := hpre x hx
        rw [hsince _ hlatest, hsince x (hsplit ▸ List.mem_append_left _ hx)] at hlt
        exact Int.ofNat_lt.mp hlt
      · have hx' : x ∈ c :: cs :=
          hsplit ▸ List.mem_append_right pre (List.mem_cons_of_mem _ hx)
        have hle := hpost x hx
        rw [hsince _ hlatest, hsince x hx'] at hle
        exact Int.ofNat_le.mp hle

theorem reason_of_not_holds (distinct : S.criterion.Distinct)
    (calm : ∀ e ∈ S.events k, e.Calm) (hd : d ∈ S.criterion.nodes) (h : S.holdsAt d k = false)
    (hk : 0 < k) : S.reason k d = ((S.memory k).get d.id).reason := by
  obtain ⟨_, -, -, asked⟩ := call_spec distinct calm
  have hnot : ¬ d.verdict (S.heard k) = true := fun hv => Bool.false_ne_true (h.symm.trans hv)
  have hopening : ((S.memory k).get d.id).opening (Int.ofNat k) =
      ((S.memory k).get d.id).account := if_neg (Int.ofNat_ne_zero.mpr (Nat.ne_of_gt hk))
  rw [reason, (asked.noted d hd).reason, if_neg hnot, hopening]
  rfl

theorem Segmented.mono {text : String} (h : S.Segmented k e text) (he : e ∈ d.nodes) :
    S.Segmented k d text := by
  obtain ⟨parts, hne, htext, hparts⟩ := h
  refine ⟨parts, hne, htext, fun part hpart => ?_⟩
  obtain ⟨hatom, hrest⟩ := hparts part hpart
  exact ⟨List.map_subset _ (Criterion.atoms_subset he) hatom, hrest⟩

theorem segmented_intercalate {es : List (Criterion ε α)} (hes : es ≠ [])
    (h : ∀ e ∈ es, S.Segmented k d (S.reason k e)) :
    S.Segmented k d ("\n".intercalate (es.map (S.reason k))) := by
  induction es with
  | nil => exact absurd rfl hes
  | cons e es ih =>
    obtain ⟨parts, hne, htext, hparts⟩ := h e List.mem_cons_self
    by_cases hnil : es = []
    · subst hnil
      rw [List.map_singleton, String.intercalate_singleton]
      exact ⟨parts, hne, htext, hparts⟩
    · obtain ⟨others, hne', htext', hothers⟩ :=
        ih hnil fun f hf => h f (List.mem_cons_of_mem e hf)
      refine ⟨parts ++ others, List.append_ne_nil_of_left_ne_nil hne others, ?_, fun part hp => ?_⟩
      · have hmap : ∀ {ps : List (Nat × String)}, ps ≠ [] → ps.map Prod.snd ≠ [] :=
          fun hps hm => hps (List.map_eq_nil_iff.mp hm)
        have htail : es.map (S.reason k) ≠ [] := fun hm => hnil (List.map_eq_nil_iff.mp hm)
        rw [List.map_cons, String.intercalate_cons_of_ne_nil htail, List.map_append,
          String.intercalate_append_of_ne_nil (hmap hne) (hmap hne'), htext, htext']
      · rcases List.mem_append.mp hp with hp | hp
        · exact hparts part hp
        · exact hothers part hp

theorem segmented_of_holds (distinct : S.criterion.Distinct) (filled : S.criterion.Filled)
    (calm : ∀ i ≤ k, ∀ e ∈ S.events i, e.Calm) (hd : d ∈ S.criterion.nodes)
    (h : S.holdsAt d k = true) : S.Segmented k d (S.reason k d) := by
  induction d using Criterion.induct with
  | node d ih =>
    have hexplains := explains_of_holds distinct filled calm hd h
    have member : ∀ e ∈ d.children, S.holdsAt e k = true → S.Segmented k d (S.reason k e) :=
      fun e he hold =>
        (ih e he (Criterion.mem_nodes_of_child hd he) hold).mono (Criterion.mem_nodes_child he)
    -- a conjunction hands one reason up, a disjunction those of all members that hold
    cases d with
    | atom id check =>
      refine ⟨[(id, S.reason k (.atom id check))], List.cons_ne_nil _ _, ?_, fun part hp => ?_⟩
      · exact String.intercalate_singleton.symm
      · rw [List.mem_singleton.mp hp]
        exact ⟨List.mem_singleton_self id, h, hexplains⟩
    | all id members =>
      obtain ⟨pre, e, post, hsplit, hreason, -⟩ := hexplains
      have he : e ∈ members := hsplit ▸ List.mem_append_right pre List.mem_cons_self
      rw [hreason]
      exact member e he (holdsAt_all h e he)
    | any id members =>
      obtain ⟨e, he, hold⟩ := holdsAt_any h
      have hreason : S.reason k (.any id members) = _ := hexplains
      rw [hreason]
      refine segmented_intercalate (List.ne_nil_of_mem (List.mem_filter.mpr ⟨he, hold⟩)) ?_
      intro f hf
      exact member f (List.mem_filter.mp hf).1 (List.mem_filter.mp hf).2

/-- The reasons of a tree in a run: right when a node holds, left alone when it does not. -/
theorem reason_law (distinct : S.criterion.Distinct) (filled : S.criterion.Filled)
    (calm : ∀ i ≤ m, ∀ e ∈ S.events i, e.Calm) (hk : k ≤ m) :
    (∀ d ∈ S.criterion.nodes, S.holdsAt d k = true →
      S.Explains k d ∧ S.Segmented k d (S.reason k d)) ∧
    (∀ d ∈ S.criterion.nodes, S.holdsAt d k = false → 0 < k →
      S.reason k d = ((S.memory k).get d.id).reason) ∧
    ∃ env, S.criterion.evaluate S.problem (S.state k) (Int.ofNat k) ⟨S.env k, S.memory k⟩ =
      .ok (S.holdsAt S.criterion k,
        if S.holdsAt S.criterion k then S.reason k S.criterion else "")
        ⟨env, S.memory (k + 1)⟩ := by
  have calm₁ : ∀ i ≤ k, ∀ e ∈ S.events i, e.Calm := fun i hi => calm i (Nat.le_trans hi hk)
  refine ⟨fun d hd h => ⟨?_, ?_⟩, fun d hd h hpos => ?_, ?_⟩
  · exact explains_of_holds distinct filled calm₁ hd h
  · exact segmented_of_holds distinct filled calm₁ hd h
  · exact reason_of_not_holds distinct (calm k hk) hd h hpos
  · obtain ⟨env, hask⟩ := ask_eq distinct (calm k hk)
    refine ⟨env, ?_⟩
    unfold Criterion.evaluate
    rw [bind_of_ok hask]
    rfl

theorem reason_law_lights : lights.Explains 3 both ∧ lights.Segmented 3 both (lights.reason 3 both) :=
  (reason_law (S := lights) (m := 3) (k := 3) (by decide) (by decide) (by decide)
    (Nat.le_refl 3)).1 both (by simp [lights, Criterion.nodes, Criterion.nodesEach, both]) rfl

end Series
end Geodescent
