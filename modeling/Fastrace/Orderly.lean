import Fastrace.Batches
import Fastrace.Program

/-!
# Commands in order

The rounds receive the commands of one thread in the order in which they were sent.  If in that order every start
comes before the submissions of its trace, every commit after them, and nothing is attached to a span after the span
itself (`MayPrecede`), then every trace that is started and committed once is a whole one, wherever the rounds cut the
commands (`wholeTrace_of_order`).  `Counted` says that every trace has been started once and is committed once, by
the drop of its root.
-/

namespace Fastrace

/-- `b` may come after `a`. -/
structure MayPrecede (a b : CollectCommand) : Prop where
  start : ∀ c, b = .startCollect c → itemsFor c [a] = []
  commit : ∀ c, a = .commitCollect c → itemsFor c [b] = []
  attached : ∀ c, ∀ i ∈ itemsFor c [a], ∀ x ∈ i.spanIds, ∀ i' ∈ itemsFor c [b], x ∉ i'.attachedTo

private theorem itemsFor_flatMap (c : CollectId) (cmds : List CollectCommand) :
    itemsFor c cmds = cmds.flatMap fun cmd => itemsFor c [cmd] := by
  induction cmds with
  | nil => rfl
  | cons cmd cmds ih =>
    rw [List.flatMap_cons, ← ih]
    simp only [itemsFor_eq, submitSpans, ← List.flatMap_append, ← List.filterMap_append, List.singleton_append]

private theorem mem_roundItems {c : CollectId} {round : Round} {i : Item} :
    i ∈ round.items c ↔ ∃ cmd ∈ round.commands, i ∈ itemsFor c [cmd] := by
  unfold Round.items
  rw [itemsFor_flatMap, List.mem_flatMap]

section Order

variable {rounds : List Round}

/-- What earlier rounds have received may precede what later rounds receive. -/
private theorem mayPrecede_of_lt (horder : (received rounds).Pairwise MayPrecede) {i j : Nat} {r r' : Round}
    (hr : rounds[i]? = some r) (hr' : rounds[j]? = some r') (hlt : i < j) {a b : CollectCommand}
    (ha : a ∈ r.commands) (hb : b ∈ r'.commands) : MayPrecede a b := by
  unfold received at horder
  rw [List.pairwise_flatMap] at horder
  obtain ⟨hi, rfl⟩ := List.getElem?_eq_some_iff.1 hr
  obtain ⟨hj, rfl⟩ := List.getElem?_eq_some_iff.1 hr'
  exact List.pairwise_iff_getElem.1 horder.2 i j hi hj hlt a ha b hb

theorem wholeTrace_of_order {c : CollectId} (horder : (received rounds).Pairwise MayPrecede)
    (hstart : (received rounds).count (.startCollect c) = 1)
    (hcommit : (received rounds).count (.commitCollect c) = 1)
    (hdrop : .dropCollect c ∉ received rounds)
    (hids : ((rounds.flatMap (·.items c)).flatMap Item.spanIds).Nodup) : WholeTrace c rounds where
  startOnce := hstart
  commitOnce := hcommit
  noDrop := hdrop
  spansOnce := hids
  startFirst i j r r' hr hstarts hr' hitems := by
    by_contra hlt
    apply hitems
    unfold Round.items
    rw [itemsFor_flatMap, List.flatMap_eq_nil_iff]
    intro a ha
    exact (mayPrecede_of_lt horder hr' hr (Nat.not_le.1 hlt) ha hstarts).start c rfl
  commitLast i j r r' hr hitems hr' hcommits := by
    by_contra hlt
    apply hitems
    unfold Round.items
    rw [itemsFor_flatMap, List.flatMap_eq_nil_iff]
    intro b hb
    exact (mayPrecede_of_lt horder hr' hr (Nat.not_le.1 hlt) hcommits hb).commit c rfl
  attachedBefore i j r r' hr hr' item hitem x hx item' hitem' hx' := by
    by_contra hlt
    obtain ⟨a, ha, hitem⟩ := mem_roundItems.1 hitem
    obtain ⟨b, hb, hitem'⟩ := mem_roundItems.1 hitem'
    exact (mayPrecede_of_lt horder hr hr' (Nat.not_le.1 hlt) ha hb).attached c item hitem x hx item' hitem' hx'

end Order

/-! ### One more command -/

private theorem itemsFor_control {cmd : CollectCommand} (h : submitSpans [cmd] = []) (c : CollectId) :
    itemsFor c [cmd] = [] := by
  rw [itemsFor_eq, h]
  rfl

theorem mayPrecede_start {cmds : List CollectCommand} {c : CollectId}
    (h : ∀ cmd ∈ submitSpans cmds, ∀ item ∈ cmd.collectToken, item.collectId ≠ c) :
    ∀ a ∈ cmds, MayPrecede a (.startCollect c) := by
  intro a ha
  refine ⟨fun c' hc' => ?_, fun c' _ => itemsFor_control rfl c', fun c' i _ x _ i' hi' => ?_⟩
  · cases hc'
    cases a with
    | submitSpans cmd =>
      have hmem : cmd ∈ submitSpans cmds := List.mem_filterMap.2 ⟨_, ha, rfl⟩
      simpa [itemsFor_eq, submitSpans] using h cmd hmem
    | _ => exact itemsFor_control rfl c
  · rw [itemsFor_control rfl] at hi'
    cases hi'

theorem mayPrecede_commit (a : CollectCommand) (c : CollectId) : MayPrecede a (.commitCollect c) where
  start c' hc' := by cases hc'
  commit c' _ := itemsFor_control rfl c'
  attached c' i _ x _ i' hi' := by
    rw [itemsFor_control rfl] at hi'
    cases hi'

/-- A submission comes after all commands if its traces have not been committed, and if it attaches nothing to a span
that has been submitted. -/
theorem mayPrecede_submit {cmds : List CollectCommand} {cmd : SubmitSpans}
    (hcommit : ∀ item ∈ cmd.collectToken, .commitCollect item.collectId ∉ cmds)
    (hattached : ∀ item ∈ cmd.collectToken, ∀ x ∈ (itemOf cmd.spans item).attachedTo,
      ∀ cmd' ∈ submitSpans cmds, ∀ raw ∈ cmd'.spans.raws, raw.rawKind = .span → raw.id ≠ x) :
    ∀ a ∈ cmds, MayPrecede a (.submitSpans cmd) := by
  have hitems : ∀ (c : CollectId) (cmd : SubmitSpans) (i : Item), i ∈ itemsFor c [.submitSpans cmd] →
      ∃ item ∈ cmd.collectToken, item.collectId = c ∧ i = itemOf cmd.spans item := by
    intro c cmd i hi
    rw [itemsFor_eq] at hi
    simp only [submitSpans, List.filterMap_cons, List.filterMap_nil, List.flatMap_cons, List.flatMap_nil,
      List.append_nil, List.mem_map, List.mem_filter, decide_eq_true_eq] at hi
    obtain ⟨item, ⟨hitem, hc⟩, rfl⟩ := hi
    exact ⟨item, hitem, hc, rfl⟩
  intro a ha
  refine ⟨fun c hc => (by cases hc), fun c hc => ?_, fun c i hi x hx i' hi' hx' => ?_⟩
  · subst hc
    rw [List.eq_nil_iff_forall_not_mem]
    intro i hi
    obtain ⟨item, hitem, rfl, -⟩ := hitems c cmd i hi
    exact hcommit item hitem ha
  · obtain ⟨item', hitem', -, rfl⟩ := hitems c cmd i' hi'
    cases a with
    | submitSpans cmd' =>
      obtain ⟨item, hitem, -, rfl⟩ := hitems c cmd' i hi
      obtain ⟨raw, hraw, rfl⟩ := List.mem_map.1 hx
      obtain ⟨hraw, hkind⟩ := List.mem_filter.1 hraw
      have hmem : cmd' ∈ submitSpans cmds := List.mem_filterMap.2 ⟨_, ha, rfl⟩
      exact hattached item' hitem' _ hx' cmd' hmem raw hraw (by simpa using hkind) rfl
    | _ =>
      rw [itemsFor_control rfl] at hi
      cases hi

/-! ### Starts and commits -/

/-- Every trace begun is started once, and committed once or by a root still to be dropped. -/
structure Counted (cmds : List CollectCommand) (inner : Var → Option SpanInner) (next : CollectId) : Prop where
  starts : ∀ c, cmds.count (.startCollect c) = if c < next then 1 else 0
  noDrop : ∀ c, .dropCollect c ∉ cmds
  own : ∀ h s c, inner h = some s → s.collectId = some c →
    c < next ∧ .commitCollect c ∉ cmds ∧ ∀ item ∈ s.collectToken, item.collectId = c
  unique : ∀ h h' s s' c, inner h = some s → inner h' = some s' → s.collectId = some c → s'.collectId = some c →
    h = h'
  commits : ∀ c < next, (∃ h s, inner h = some s ∧ s.collectId = some c) ∨ cmds.count (.commitCollect c) = 1
  future : ∀ c, next ≤ c → .commitCollect c ∉ cmds

namespace Counted

variable {cmds : List CollectCommand} {inner : Var → Option SpanInner} {next : CollectId}

theorem init : Counted [] (fun _ => none) 0 where
  starts c := by simp
  noDrop c := List.not_mem_nil
  own h s c hs := by cases hs
  unique h h' s s' c hs := by cases hs
  commits c hc := absurd hc (Nat.not_lt_zero c)
  future c _ := List.not_mem_nil

theorem submit (h : Counted cmds inner next) (subs : List SubmitSpans) :
    Counted (cmds ++ subs.map .submitSpans) inner next where
  starts c := by
    rw [List.count_append, h.starts c, List.count_eq_zero_of_not_mem (by simp), Nat.add_zero]
  noDrop c := by
    rw [List.mem_append, not_or]
    exact ⟨h.noDrop c, by simp⟩
  own v s c hs hc := by
    obtain ⟨hlt, hcommit, htoken⟩ := h.own v s c hs hc
    refine ⟨hlt, ?_, htoken⟩
    rw [List.mem_append, not_or]
    exact ⟨hcommit, by simp⟩
  unique := h.unique
  commits c hc := by
    have hnone : (subs.map CollectCommand.submitSpans).count (.commitCollect c) = 0 :=
      List.count_eq_zero_of_not_mem (by simp)
    rw [List.count_append, hnone, Nat.add_zero]
    exact h.commits c hc
  future c hc := by
    rw [List.mem_append, not_or]
    exact ⟨h.future c hc, by simp⟩

/-- A span that is no root. -/
theorem born (h : Counted cmds inner next) {v : Var} {s : SpanInner} (hfree : inner v = none)
    (hs : s.collectId = none) : Counted cmds (Function.update inner v (some s)) next := by
  have hold : ∀ v' s' c, Function.update inner v (some s) v' = some s' → s'.collectId = some c →
      inner v' = some s' := by
    intro v' s' c hs' hc
    by_cases hv : v' = v
    · subst hv
      rw [Function.update_self] at hs'
      cases hs'
      rw [hs] at hc
      cases hc
    · rwa [Function.update_of_ne hv] at hs'
  refine ⟨h.starts, h.noDrop, fun v' s' c hs' hc => h.own v' s' c (hold v' s' c hs' hc) hc,
    fun v₁ v₂ s₁ s₂ c h₁ h₂ hc₁ hc₂ => h.unique v₁ v₂ s₁ s₂ c (hold _ _ _ h₁ hc₁) (hold _ _ _ h₂ hc₂) hc₁ hc₂,
    fun c hc => ?_, h.future⟩
  rcases h.commits c hc with ⟨v', s', hs', hc'⟩ | hcommit
  · have hne : v' ≠ v := fun he => by rw [he, hfree] at hs'; cases hs'
    exact Or.inl ⟨v', s', by rw [Function.update_of_ne hne]; exact hs', hc'⟩
  · exact Or.inr hcommit

/-- A root starts the next trace. -/
theorem root (h : Counted cmds inner next) {v : Var} {s : SpanInner} (hfree : inner v = none)
    (hs : s.collectId = some next) (htoken : ∀ item ∈ s.collectToken, item.collectId = next) :
    Counted (cmds ++ [.startCollect next]) (Function.update inner v (some s)) (next + 1) where
  starts c := by
    rw [List.count_append, h.starts c, List.count_singleton]
    by_cases hc : c = next
    · simp [hc]
    · have hne : (CollectCommand.startCollect next == CollectCommand.startCollect c) = false := by
        simpa using Ne.symm hc
      have hiff : c < next + 1 ↔ c < next :=
        ⟨fun hlt => Nat.lt_of_le_of_ne (Nat.le_of_lt_succ hlt) hc, Nat.lt_succ_of_lt⟩
      simp [hne, hiff]
  noDrop c := by simpa using h.noDrop c
  own v' s' c hs' hc := by
    have hcommit : ∀ c, .commitCollect c ∉ cmds → .commitCollect c ∉ cmds ++ [.startCollect next] := by
      intro c hc
      simpa using hc
    by_cases hv : v' = v
    · subst hv
      rw [Function.update_self] at hs'
      cases hs'
      rw [hs] at hc
      cases hc
      exact ⟨Nat.lt_succ_self _, hcommit _ (h.future next (Nat.le_refl _)), htoken⟩
    · rw [Function.update_of_ne hv] at hs'
      obtain ⟨hlt, hnot, hitems⟩ := h.own v' s' c hs' hc
      exact ⟨Nat.lt_succ_of_lt hlt, hcommit _ hnot, hitems⟩
  unique v₁ v₂ s₁ s₂ c h₁ h₂ hc₁ hc₂ := by
    have hlater : ∀ v' s', v' ≠ v → Function.update inner v (some s) v' = some s' → s'.collectId ≠ some next := by
      intro v' s' hv hs' hc
      rw [Function.update_of_ne hv] at hs'
      exact Nat.lt_irrefl _ (h.own v' s' next hs' hc).1
    by_cases hv₁ : v₁ = v
    · by_cases hv₂ : v₂ = v
      · rw [hv₁, hv₂]
      · subst hv₁
        rw [Function.update_self] at h₁
        cases h₁
        rw [hs] at hc₁
        cases hc₁
        exact absurd hc₂ (hlater v₂ s₂ hv₂ h₂)
    · by_cases hv₂ : v₂ = v
      · subst hv₂
        rw [Function.update_self] at h₂
        cases h₂
        rw [hs] at hc₂
        cases hc₂
        exact absurd hc₁ (hlater v₁ s₁ hv₁ h₁)
      · rw [Function.update_of_ne hv₁] at h₁
        rw [Function.update_of_ne hv₂] at h₂
        exact h.unique v₁ v₂ s₁ s₂ c h₁ h₂ hc₁ hc₂
  commits c hc := by
    rcases Nat.lt_succ_iff_lt_or_eq.1 hc with hlt | rfl
    · rcases h.commits c hlt with ⟨v', s', hs', hc'⟩ | hcommit
      · have hne : v' ≠ v := fun he => by rw [he, hfree] at hs'; cases hs'
        exact Or.inl ⟨v', s', by rw [Function.update_of_ne hne]; exact hs', hc'⟩
      · refine Or.inr ?_
        rw [List.count_append, hcommit, List.count_eq_zero_of_not_mem (by simp)]
    · exact Or.inl ⟨v, s, Function.update_self .., hs⟩
  future c hc := by
    have hnot := h.future c (Nat.le_of_succ_le hc)
    simpa using hnot

/-- A span is dropped; a root commits its trace. -/
theorem dropped (h : Counted cmds inner next) {v : Var} {s : SpanInner} (hs : inner v = some s) :
    Counted (cmds ++ s.collectId.toList.map .commitCollect) (Function.update inner v none) next := by
  have hold : ∀ v' s', Function.update inner v none v' = some s' → v' ≠ v ∧ inner v' = some s' := by
    intro v' s' hs'
    by_cases hv : v' = v
    · subst hv
      rw [Function.update_self] at hs'
      cases hs'
    · rw [Function.update_of_ne hv] at hs'
      exact ⟨hv, hs'⟩
  have hcommit : ∀ c, s.collectId ≠ some c → .commitCollect c ∉ cmds →
      .commitCollect c ∉ cmds ++ s.collectId.toList.map .commitCollect := by
    intro c hne hnot
    cases hc : s.collectId with
    | none => simpa using hnot
    | some c' =>
      rw [hc] at hne
      have hne' : c ≠ c' := fun he => hne (he ▸ rfl)
      simpa using ⟨hnot, hne'⟩
  refine ⟨fun c => ?_, fun c => ?_, fun v' s' c hs' hc => ?_, fun v₁ v₂ s₁ s₂ c h₁ h₂ => ?_, fun c hc => ?_,
    fun c hc => ?_⟩
  · rw [List.count_append, h.starts c, List.count_eq_zero_of_not_mem (by simp), Nat.add_zero]
  · rw [List.mem_append, not_or]
    exact ⟨h.noDrop c, by simp⟩
  · obtain ⟨hne, hs'⟩ := hold v' s' hs'
    obtain ⟨hlt, hnot, hitems⟩ := h.own v' s' c hs' hc
    refine ⟨hlt, hcommit c (fun heq => hne ?_) hnot, hitems⟩
    exact h.unique v' v s' s c hs' hs hc heq
  · exact h.unique v₁ v₂ s₁ s₂ c (hold _ _ h₁).2 (hold _ _ h₂).2
  · rw [List.count_append]
    rcases h.commits c hc with ⟨v', s', hs', hc'⟩ | hcount
    · by_cases hv : v' = v
      · subst hv
        rw [hs] at hs'
        cases hs'
        refine Or.inr ?_
        rw [List.count_eq_zero_of_not_mem (h.own v' s c hs hc').2.1, hc']
        simp
      · exact Or.inl ⟨v', s', by rw [Function.update_of_ne hv]; exact hs', hc'⟩
    · refine Or.inr ?_
      rw [hcount, List.count_eq_zero_of_not_mem]
      intro hmem
      obtain ⟨c', hc', heq⟩ := List.mem_map.1 hmem
      cases heq
      have hnot := (h.own v s c hs (Option.mem_toList.1 hc')).2.1
      rw [List.count_eq_zero_of_not_mem hnot] at hcount
      cases hcount
  · refine hcommit c (fun heq => ?_) (h.future c hc)
    exact Nat.not_le.2 (h.own v s c hs heq).1 hc

end Counted

end Fastrace
