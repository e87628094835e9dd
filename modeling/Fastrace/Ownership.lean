import Fastrace.Effects
import Fastrace.Exclusive

/-!
# Every raw span is in one place

With fresh ids, an id belongs to one span of the program, to one entry of one stack, to one set of collected local
spans, or to one submission, and never to two of them (`Owned`).  Sets pushed by `push_child_spans` are the exception:
they are shared, and what they hold stays with the collected set (`Owned.shared`).
-/

namespace Fastrace

variable {T : Type}

/-- Where a raw span can be. -/
inductive Holder (T : Type) where
  | span (h : Var)
  | stack (t : T)
  | collected (l : Var)
  | submitted

def LocalSpanStack.ids (s : LocalSpanStack) : List SpanId := s.spanLines.flatMap fun line => line.spanQueue.ids

def LocalSpansInner.ids (localSpans : LocalSpansInner) : List SpanId := localSpans.spans.map (·.id)

/-- The raw spans that a submission takes with it. -/
def SubmitSpans.ownIds (cmd : SubmitSpans) : List SpanId :=
  match cmd.spans with
  | .span rawSpan => [rawSpan.id]
  | .localSpansInner localSpans => localSpans.ids
  | .sharedLocalSpans _ => []

def View.holds (v : View T) : Holder T → List SpanId
  | .span h => (v.inner h).toList.map (·.rawSpan.id)
  | .stack t => (v.spanStack t).ids
  | .collected l => (v.collected l).toList.flatMap LocalSpansInner.ids
  | .submitted => v.submitted.flatMap SubmitSpans.ownIds

/-- `drawn` are the ids drawn so far. -/
structure Owned (drawn : List SpanId) (v : View T) : Prop where
  exclusive : Exclusive drawn v.holds
  shared : ∀ cmd ∈ v.submitted, ∀ localSpans, cmd.spans = .sharedLocalSpans localSpans →
    ∃ l, v.collected l = some localSpans

/-! ### Small facts -/

theorem mem_submission {spans : SpanSet} {token : CollectToken} {cmd : SubmitSpans}
    (h : cmd ∈ submission spans token) : cmd = ⟨spans, retainSampled token⟩ := by
  unfold submission at h
  split at h
  · cases h
  · exact List.mem_singleton.1 h

private theorem ownIds_submission (spans : SpanSet) (token : CollectToken) :
    ((submission spans token).flatMap SubmitSpans.ownIds).Subperm (SubmitSpans.ownIds ⟨spans, token⟩) := by
  unfold submission
  split
  · exact List.nil_subperm
  · rw [List.flatMap_singleton]
    exact List.Subperm.refl _

theorem Lost.ids {stack stack' : LocalSpanStack} (h : Lost stack stack') : stack'.ids.Subperm stack.ids := by
  unfold LocalSpanStack.ids
  rcases h with h | ⟨line, h⟩
  · rw [h]
  · rw [h, List.flatMap_cons]
    exact (List.sublist_append_right _ _).subperm

/-- Popping the top line takes its entries off the stack. -/
theorem ids_of_pop {stack stack' : LocalSpanStack} {line : SpanLine}
    (h : stack.spanLines = line :: stack'.spanLines) : stack.ids = line.spanQueue.ids ++ stack'.ids := by
  unfold LocalSpanStack.ids
  rw [h, List.flatMap_cons]

theorem LocalSpanStack.TopChange.ids {stack stack' : LocalSpanStack} {label : Option (SpanId × RawKind)}
    (h : stack.TopChange label stack') : (stack'.ids).Perm (label.toList.map Prod.fst ++ stack.ids) := by
  obtain ⟨line, lines, line', hlines, hchange, rfl⟩ := h
  unfold LocalSpanStack.ids
  rw [hlines, List.flatMap_cons, List.flatMap_cons, hchange.ids, ← List.append_assoc]
  exact List.Perm.append_right _ List.perm_append_comm

/-! ### A step keeps the ownership -/

section Step

private theorem holds_collected_update (v : View T) (l : Var) (localSpans : Option LocalSpansInner) (p : Holder T)
    (hp : p ≠ .collected l) :
    View.holds { v with collected := Function.update v.collected l localSpans } p = v.holds p := by
  cases p with
  | collected l' =>
    have hne : l' ≠ l := fun he => hp (he ▸ rfl)
    simp [View.holds, hne]
  | _ => rfl

private theorem holds_span_update (v : View T) (h : Var) (s : Option SpanInner) (p : Holder T) (hp : p ≠ .span h) :
    View.holds { v with inner := Function.update v.inner h s } p = v.holds p := by
  cases p with
  | span h' =>
    have hne : h' ≠ h := fun he => hp (he ▸ rfl)
    simp [View.holds, hne]
  | _ => rfl

private theorem holds_submit (v : View T) (spans : SpanSet) (token : CollectToken) (p : Holder T)
    (hp : p ≠ .submitted) :
    View.holds { v with submitted := v.submitted ++ submission spans token } p = v.holds p := by
  cases p with
  | submitted => exact absurd rfl hp
  | _ => rfl

variable [DecidableEq T] {drawn : List SpanId} {v v' : View T} {a : T × Op}

private theorem holds_stack_update (v : View T) (t : T) (stack : LocalSpanStack) (p : Holder T) (hp : p ≠ .stack t) :
    View.holds { v with spanStack := Function.update v.spanStack t stack } p = v.holds p := by
  cases p with
  | stack t' =>
    have hne : t' ≠ t := fun he => hp (he ▸ rfl)
    simp [View.holds, hne]
  | _ => rfl

omit [DecidableEq T] in
/-- A submission takes with it what its set holds, if it is sent. -/
private theorem holds_submitted (v : View T) (spans : SpanSet) (token : CollectToken) :
    (View.holds { v with submitted := v.submitted ++ submission spans token } .submitted).Subperm
      (v.holds .submitted ++ SubmitSpans.ownIds ⟨spans, token⟩) := by
  have hsub := ownIds_submission spans token
  change ((v.submitted ++ submission spans token).flatMap SubmitSpans.ownIds).Subperm _
  rw [List.flatMap_append]
  exact (List.Subperm.refl _).append hsub

/-- The entries of a stack that has not gained any. -/
private theorem stack_shrink (h : Exclusive drawn v.holds) {stack : LocalSpanStack}
    (hids : stack.ids.Subperm (v.spanStack a.1).ids) :
    Exclusive drawn (View.holds { v with spanStack := Function.update v.spanStack a.1 stack }) := by
  refine h.shrink fun p => ?_
  by_cases hp : p = .stack a.1
  · subst hp
    simpa [View.holds] using hids
  · rw [holds_stack_update v a.1 stack p hp]

private theorem exclusive_step (h : Exclusive drawn v.holds) (heffect : Effect v a v')
    (hfresh : ∀ x, a.2.id? = some x → x ∉ drawn) : Exclusive (drawn ++ a.2.id?.toList) v'.holds := by
  have hweak : drawn ⊆ drawn ++ a.2.id?.toList := List.subset_append_left _ _
  cases heffect with
  | quiet => exact h.weaken hweak
  | @born h' s hfree hid hkind hfrom =>
    rw [hid]
    refine h.grow (.span h') (hfresh _ hid) ?_ fun p hp => holds_span_update v h' _ p hp
    simp [View.holds]
  | @amended h' s s' hs hsame =>
    refine (h.shrink fun p => ?_).weaken hweak
    by_cases hp : p = .span h'
    · subst hp
      simp [View.holds, hs, hsame.id_eq]
    · rw [holds_span_update v h' _ p hp]
  | @dropped h' s s' hs hsame =>
    have hids : SubmitSpans.ownIds ⟨.span s'.rawSpan, s.collectToken⟩ = [s.rawSpan.id] := by
      simp [SubmitSpans.ownIds, hsame.id_eq]
    have hsent := holds_submitted { v with inner := Function.update v.inner h' none } (.span s'.rawSpan)
      s.collectToken
    rw [hids] at hsent
    -- the raw span leaves the variable and is submitted
    refine (h.move (.span h') .submitted (by simp) ?_ hsent fun p hp₀ hp₁ => ?_).weaken hweak
    · simp [View.holds, hs]
    · exact (holds_submit { v with inner := Function.update v.inner h' none } _ _ p hp₁).trans
        (holds_span_update v h' none p hp₀)
  | @attached h' s raw hs hid hkind =>
    rw [hid]
    refine h.grow .submitted (hfresh _ hid) ?_ fun p hp => holds_submit v _ _ p hp
    exact (holds_submitted v (.span raw) s.issueCollectToken).trans List.perm_append_comm.subperm
  | @pushed h' l s localSpans hop hs hl =>
    -- a shared set stays with the variable that holds it
    refine (h.shrink fun p => ?_).weaken hweak
    by_cases hp : p = .submitted
    · subst hp
      have hsent := holds_submitted v (.sharedLocalSpans localSpans) s.issueCollectToken
      rwa [show SubmitSpans.ownIds ⟨.sharedLocalSpans localSpans, s.issueCollectToken⟩ = [] from rfl,
        List.append_nil] at hsent
    · rw [holds_submit v _ _ p hp]
  | @recorded label stack htop hlabel =>
    cases label with
    | none => exact (stack_shrink h htop.ids.subperm).weaken hweak
    | some x =>
      obtain ⟨x, k⟩ := x
      have hid := (hlabel x k rfl).1
      rw [hid]
      refine h.grow (.stack a.1) (hfresh x hid) ?_ fun p hp => holds_stack_update v a.1 stack p hp
      simpa [View.holds] using htop.ids.subperm
  | @registered capacity epoch token stack hlines htoken =>
    refine (stack_shrink h ?_).weaken hweak
    unfold LocalSpanStack.ids
    rw [hlines]
    exact List.Subperm.refl _
  | @lost stack hlost => exact (stack_shrink h hlost.ids).weaken hweak
  | @collectedNone l now stack hlost hfree =>
    refine ((stack_shrink h hlost.ids).shrink fun p => ?_).weaken hweak
    by_cases hp : p = .collected l
    · subst hp
      simp [View.holds, LocalSpansInner.ids]
    · rw [holds_collected_update { v with spanStack := Function.update v.spanStack a.1 stack } l _ p hp]
  | @collected l now line stack hlines hfree =>
    have hids := ids_of_pop hlines
    -- the entries of the top line become the collected set
    refine (h.move (.stack a.1) (.collected l) (l := line.spanQueue.ids) (by simp) ?_ ?_ fun p hp₀ hp₁ => ?_).weaken
      hweak
    · simp [View.holds, hids, List.Subperm.refl]
    · simp [View.holds, hfree, LocalSpansInner.ids, SpanQueue.ids, List.Subperm.refl]
    · exact (holds_collected_update { v with spanStack := Function.update v.spanStack a.1 stack } l _ p hp₁).trans
        (holds_stack_update v a.1 stack p hp₀)
  | @closed now line token stack hlines htoken =>
    have hids := ids_of_pop hlines
    -- the entries of the top line are submitted with the token of the line
    have hsent := holds_submitted { v with spanStack := Function.update v.spanStack a.1 stack }
      (.localSpansInner ⟨line.spanQueue.spanQueue, now⟩) token
    refine (h.move (.stack a.1) .submitted (by simp) ?_ hsent fun p hp₀ hp₁ => ?_).weaken hweak
    · simp [View.holds, hids, SubmitSpans.ownIds, LocalSpansInner.ids, SpanQueue.ids, List.Subperm.refl]
    · exact (holds_submit { v with spanStack := Function.update v.spanStack a.1 stack } _ _ p hp₁).trans
        (holds_stack_update v a.1 stack p hp₀)

/-- Collected sets are kept, and what is pushed is one of them. -/
private theorem shared_step (h : Owned drawn v) (heffect : Effect v a v') : ∀ cmd ∈ v'.submitted, ∀ localSpans,
    cmd.spans = .sharedLocalSpans localSpans → ∃ l, v'.collected l = some localSpans := by
  intro cmd hcmd localSpans hspans
  have hcollected : ∀ l : Var, v.collected l = none → ∀ new : Option LocalSpansInner, cmd ∈ v.submitted →
      ∃ l', Function.update v.collected l new l' = some localSpans := by
    intro l hfree new hold
    obtain ⟨l', hl'⟩ := h.shared cmd hold localSpans hspans
    have hne : l' ≠ l := fun he => by rw [he, hfree] at hl'; cases hl'
    exact ⟨l', by rw [Function.update_of_ne hne, hl']⟩
  have hsubmitted : ∀ spans token, cmd ∈ v.submitted ++ submission spans token →
      (spans = .sharedLocalSpans localSpans → ∃ l, v.collected l = some localSpans) →
      ∃ l, v.collected l = some localSpans := by
    intro spans token hcmd' hnew
    rcases List.mem_append.1 hcmd' with hold | hsent
    · exact h.shared cmd hold localSpans hspans
    · rw [mem_submission hsent] at hspans
      exact hnew hspans
  cases heffect with
  | dropped => exact hsubmitted _ _ hcmd (by rintro ⟨⟩)
  | attached => exact hsubmitted _ _ hcmd (by rintro ⟨⟩)
  | pushed hop hs hl => exact hsubmitted _ _ hcmd (by rintro ⟨⟩; exact ⟨_, hl⟩)
  | closed => exact hsubmitted _ _ hcmd (by rintro ⟨⟩)
  | collectedNone hlost hfree => exact hcollected _ hfree _ hcmd
  | collected hlines hfree => exact hcollected _ hfree _ hcmd
  | _ => exact h.shared cmd hcmd localSpans hspans

theorem Owned.step (h : Owned drawn v) (heffect : Effect v a v') (hfresh : ∀ x, a.2.id? = some x → x ∉ drawn) :
    Owned (drawn ++ a.2.id?.toList) v' :=
  ⟨exclusive_step h.exclusive heffect hfresh, shared_step h heffect⟩

end Step

theorem Owned.init [DecidableEq T] : Owned [] (World.init : World T).view where
  exclusive := by
    have hnil : ∀ p, View.holds (World.init : World T).view p = [] := by
      intro p
      cases p <;> rfl
    refine ⟨fun p => ?_, fun p q x hx => ?_, fun p x hx => ?_⟩
    · rw [hnil]; exact List.nodup_nil
    · rw [hnil] at hx; cases hx
    · rw [hnil] at hx; cases hx
  shared cmd hcmd := by cases hcmd

/-- The id of the first call is fresh, and those of the others are after it. -/
theorem fresh_of_cons {drawn : List SpanId} {a : T × Op} {as : List (T × Op)}
    (hfresh : (drawn ++ drawnIds (a :: as)).Nodup) (hnonzero : default ∉ drawnIds (a :: as)) :
    (∀ x, a.2.id? = some x → x ∉ drawn ∧ x ≠ default) ∧ (drawn ++ a.2.id?.toList ++ drawnIds as).Nodup ∧
      default ∉ drawnIds as := by
  rw [drawnIds_cons, ← List.append_assoc] at hfresh
  rw [drawnIds_cons, List.mem_append, not_or] at hnonzero
  refine ⟨fun x hx => ?_, hfresh, hnonzero.2⟩
  rw [hx] at hfresh hnonzero
  refine ⟨fun hd => ?_, fun he => hnonzero.1 (by simp [he])⟩
  exact List.disjoint_of_nodup_append (List.Nodup.of_append_left hfresh) hd (by simp)

/-- What every step with a fresh id keeps, every run with fresh ids keeps. -/
theorem fresh_induction [DecidableEq T] {P : List SpanId → View T → Prop} {C : World T → T × Op → Prop}
    (hstep : ∀ drawn w a w', P drawn w.view → C w a → (∀ x, a.2.id? = some x → x ∉ drawn ∧ x ≠ default) →
      w.step a = some w' → P (drawn ++ a.2.id?.toList) w'.view) {drawn : List SpanId} {w w' : World T}
    {as : List (T × Op)} (h : P drawn w.view) (hfresh : (drawn ++ drawnIds as).Nodup)
    (hnonzero : default ∉ drawnIds as) (hmeet : Steps.Meet World.step C w as)
    (hrun : Steps.run World.step w as = some w') : P (drawn ++ drawnIds as) w'.view := by
  induction as generalizing drawn w with
  | nil =>
    cases hrun
    simpa [drawnIds] using h
  | cons a as ih =>
    obtain ⟨w₁, h₁, hrun⟩ := Option.bind_eq_some_iff.1 hrun
    obtain ⟨hfirst, hfresh, hnonzero⟩ := fresh_of_cons hfresh hnonzero
    rw [drawnIds_cons, ← List.append_assoc]
    exact ih (hstep drawn w a w₁ h hmeet.1 hfirst h₁) hfresh hnonzero (hmeet.2 w₁ h₁) hrun

end Fastrace
