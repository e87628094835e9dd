import Fastrace.Program

/-!
# What a call does to spans, queues and submissions

The invariants of a program are about its recording spans, the queues of its threads, the collected local spans and
the submissions: the `View` of a world.  `Effect` lists what a call can do to the view, and `step_effect` says that
every step is one of these; later proofs follow its cases and do not unfold `World.step`.
-/

namespace Fastrace

structure View (T : Type) where
  inner : Var → Option SpanInner
  spanStack : T → LocalSpanStack
  collected : Var → Option LocalSpansInner
  submitted : List SubmitSpans

def World.view {T : Type} (w : World T) : View T where
  inner := w.inner
  spanStack := w.spanStack
  collected := w.collected
  submitted := w.submitted

/-- What `GlobalCollect::submit_spans` sends. -/
def submission (spans : SpanSet) (collectToken : CollectToken) : List SubmitSpans :=
  if (retainSampled collectToken).isEmpty then [] else [⟨spans, retainSampled collectToken⟩]

@[simp] theorem retainSampled_idem (token : CollectToken) :
    retainSampled (retainSampled token) = retainSampled token := by
  simp [retainSampled]

/-- The spans a call takes as the parents of a new span. -/
def Op.parents : Op → List Var
  | .enterWithParent _ _ parent _ _ => [parent]
  | .enterWithParents _ _ parents _ _ => parents
  | _ => []

/-- The call makes a span or a local span under the local parent. -/
def Op.usesLine : Op → Bool
  | .enterWithLocalParent .. => true
  | .enterLocal .. => true
  | _ => false

def Op.pushes : Op → Bool
  | .pushChildSpans .. => true
  | _ => false

def Op.isRoot : Op → Bool
  | .root .. => true
  | _ => false

variable {T : Type}

/-- Where the token of a new span comes from. -/
inductive TokenFrom (v : View T) (a : T × Op) : CollectToken → Prop
  | root (hop : a.2.isRoot) (parent : SpanContext) (collectId : CollectId) :
      TokenFrom v a (Span.rootToken parent collectId)
  | parents : TokenFrom v a ((a.2.parents.filterMap v.inner).flatMap SpanInner.issueCollectToken)
  | line {line : SpanLine} {lines : List SpanLine} {token : CollectToken} (huses : a.2.usesLine)
      (hlines : (v.spanStack a.1).spanLines = line :: lines) (htoken : line.currentCollectToken = some token) :
      TokenFrom v a token

/-- The same span, up to its end and properties. -/
structure SpanInner.Same (s s' : SpanInner) : Prop where
  id_eq : s'.rawSpan.id = s.rawSpan.id
  kind_eq : s'.rawSpan.rawKind = s.rawSpan.rawKind
  token_eq : s'.collectToken = s.collectToken

/-- Nothing happens to the lines, or the top line is popped and lost. -/
def Lost (stack stack' : LocalSpanStack) : Prop :=
  stack'.spanLines = stack.spanLines ∨ ∃ line, stack.spanLines = line :: stack'.spanLines

inductive Effect [DecidableEq T] (v : View T) (a : T × Op) : View T → Prop
  | quiet : Effect v a v
  | born {h : Var} {s : SpanInner} (hfree : v.inner h = none) (hid : a.2.id? = some s.rawSpan.id)
      (hkind : s.rawSpan.rawKind = .span) (hfrom : TokenFrom v a s.collectToken) :
      Effect v a { v with inner := Function.update v.inner h (some s) }
  | amended {h : Var} {s s' : SpanInner} (hs : v.inner h = some s) (hsame : s.Same s') :
      Effect v a { v with inner := Function.update v.inner h (some s') }
  | dropped {h : Var} {s s' : SpanInner} (hs : v.inner h = some s) (hsame : s.Same s') :
      Effect v a { v with
        inner := Function.update v.inner h none
        submitted := v.submitted ++ submission (.span s'.rawSpan) s.collectToken }
  | attached {h : Var} {s : SpanInner} {raw : RawSpan} (hs : v.inner h = some s) (hid : a.2.id? = some raw.id)
      (hkind : raw.rawKind ≠ .span) :
      Effect v a { v with submitted := v.submitted ++ submission (.span raw) s.issueCollectToken }
  | pushed {h l : Var} {s : SpanInner} {localSpans : LocalSpansInner} (hop : a.2.pushes) (hs : v.inner h = some s)
      (hl : v.collected l = some localSpans) :
      Effect v a { v with
        submitted := v.submitted ++ submission (.sharedLocalSpans localSpans) s.issueCollectToken }
  | recorded {label : Option (SpanId × RawKind)} {stack : LocalSpanStack}
      (htop : (v.spanStack a.1).TopChange label stack)
      (hlabel : ∀ x k, label = some (x, k) → a.2.id? = some x ∧ (k = .span → a.2.usesLine)) :
      Effect v a { v with spanStack := Function.update v.spanStack a.1 stack }
  | registered {capacity epoch : Nat} {token : Option CollectToken} {stack : LocalSpanStack}
      (hlines : stack.spanLines = SpanLine.new capacity epoch token :: (v.spanStack a.1).spanLines)
      (htoken : ∀ token', token = some token' → ∃ h s, v.inner h = some s ∧ token' = s.issueCollectToken) :
      Effect v a { v with spanStack := Function.update v.spanStack a.1 stack }
  | lost {stack : LocalSpanStack} (hlost : Lost (v.spanStack a.1) stack) :
      Effect v a { v with spanStack := Function.update v.spanStack a.1 stack }
  | collectedNone {l : Var} {now : Instant} {stack : LocalSpanStack} (hlost : Lost (v.spanStack a.1) stack)
      (hfree : v.collected l = none) :
      Effect v a { v with
        spanStack := Function.update v.spanStack a.1 stack
        collected := Function.update v.collected l (some ⟨[], now⟩) }
  | collected {l : Var} {now : Instant} {line : SpanLine} {stack : LocalSpanStack}
      (hlines : (v.spanStack a.1).spanLines = line :: stack.spanLines) (hfree : v.collected l = none) :
      Effect v a { v with
        spanStack := Function.update v.spanStack a.1 stack
        collected := Function.update v.collected l (some ⟨line.spanQueue.spanQueue, now⟩) }
  | closed {now : Instant} {line : SpanLine} {token : CollectToken} {stack : LocalSpanStack}
      (hlines : (v.spanStack a.1).spanLines = line :: stack.spanLines) (htoken : line.collectToken = some token) :
      Effect v a { v with
        spanStack := Function.update v.spanStack a.1 stack
        submitted := v.submitted ++ submission (.localSpansInner ⟨line.spanQueue.spanQueue, now⟩) token }

/-- A table all of whose entries satisfy `P` keeps doing so when an entry is replaced by one that does. -/
theorem update_forall {α β : Type} [DecidableEq α] {f : α → β} {P : β → Prop} (h : ∀ a, P (f a)) (a : α) {b : β}
    (hb : P b) (a' : α) : P (Function.update f a b a') := by
  by_cases ha : a' = a
  · subst ha
    rwa [Function.update_self]
  · rw [Function.update_of_ne ha]
    exact h a'

/-! ### The view of a changed world -/

section View

variable (w : World T)

theorem view_setSpan (h : Var) (span : Option Span) :
    (w.setSpan h span).view = { w.view with inner := Function.update w.view.inner h (span.bind Span.inner) } := by
  have hinner : (w.setSpan h span).inner = Function.update w.inner h (span.bind Span.inner) := by
    funext h'
    unfold World.inner World.setSpan
    by_cases hh : h' = h
    · subst hh; simp
    · simp [hh]
  unfold World.view
  rw [hinner]
  rfl

theorem view_send (t : T) (cmds : List CollectCommand) :
    (w.send t cmds).view = { w.view with submitted := w.view.submitted ++ submitSpans cmds } := by
  have hsub : (w.send t cmds).submitted = w.submitted ++ submitSpans cmds := by
    simp [World.submitted, World.commands, World.send, submitSpans, List.filterMap_append, List.filterMap_map,
      Function.comp_def]
  unfold World.view
  rw [hsub]
  rfl

theorem view_send_nil (t : T) {cmds : List CollectCommand} (h : submitSpans cmds = []) :
    (w.send t cmds).view = w.view := by
  rw [view_send, h, List.append_nil]

theorem newSpan_eq_some {w w' : World T} {h : Var} {span : Span} (hw : w.newSpan h span = some w') :
    w.spans h = none ∧ w' = w.setSpan h (some span) := by
  unfold World.newSpan at hw
  split at hw
  · rename_i hfree
    cases hw
    exact ⟨Option.isNone_iff_eq_none.1 hfree, rfl⟩
  · cases hw

theorem submitSpans_submitSpans (spans : SpanSet) (collectToken : CollectToken) :
    submitSpans (GlobalCollect.submitSpans spans collectToken) = submission spans collectToken := by
  unfold GlobalCollect.submitSpans submission
  cases h : (retainSampled collectToken).isEmpty <;> simp [h, submitSpans]

end View

/-! ### The cases -/

section Cases

variable {w w' : World T} {t : T}

private theorem inner_of_none {h : Var} (hfree : w.spans h = none) : w.view.inner h = none := by
  simp [World.view, World.inner, hfree]

private theorem inner_of_some {h : Var} {span : Span} (hspan : w.spans h = some span) :
    w.view.inner h = span.inner := by
  simp [World.view, World.inner, hspan]

variable [DecidableEq T]

/-- A new span that is a no-op changes nothing, any other is born. -/
private theorem effect_newSpan {op : Op} {h : Var} {span : Span} (hw : w.newSpan h span = some w')
    (hborn : ∀ s, span.inner = some s → op.id? = some s.rawSpan.id ∧ s.rawSpan.rawKind = .span ∧
      TokenFrom w.view (t, op) s.collectToken) : Effect w.view (t, op) w'.view := by
  obtain ⟨hfree, rfl⟩ := newSpan_eq_some hw
  have hnone := inner_of_none hfree
  rw [view_setSpan, Option.bind_some]
  cases hs : span.inner with
  | none =>
    rw [← hnone, Function.update_eq_self]
    exact .quiet
  | some s =>
    obtain ⟨hid, hkind, hfrom⟩ := hborn s hs
    exact .born hnone hid hkind hfrom

/-- Sending the submission of a child of the span, which carries an attachment. -/
private theorem effect_attach {op : Op} {h : Var} {span : Span} {cmds : List CollectCommand}
    (hspan : w.spans h = some span) (hnoop : span.inner = none → cmds = [])
    (hcmds : ∀ s, span.inner = some s → ∃ raw : RawSpan, op.id? = some raw.id ∧ raw.rawKind ≠ .span ∧
      cmds = GlobalCollect.submitSpans (.span raw) s.issueCollectToken) :
    Effect w.view (t, op) (w.send t cmds).view := by
  cases hs : span.inner with
  | none =>
    rw [hnoop hs, view_send_nil _ _ rfl]
    exact .quiet
  | some s =>
    obtain ⟨raw, hid, hkind, rfl⟩ := hcmds s hs
    rw [view_send, submitSpans_submitSpans]
    exact .attached ((inner_of_some hspan).trans hs) hid hkind

private theorem effect_root {h : Var} {name : String} {parent : SpanContext} {id : SpanId} {now : Instant}
    (hw : w.step (t, .root h name parent id now) = some w') :
    Effect w.view (t, .root h name parent id now) w'.view := by
  obtain ⟨w₁, hw₁, rfl⟩ := Option.map_eq_some_iff.1 hw
  have hcmds : submitSpans (Span.root w.reporterReady w.nextCollectId name parent id now).2.2 = [] := by
    unfold Span.root
    split
    · rfl
    · split <;> rfl
  have hborn : ∀ s, (Span.root w.reporterReady w.nextCollectId name parent id now).1.inner = some s →
      (Op.root h name parent id now).id? = some s.rawSpan.id ∧ s.rawSpan.rawKind = .span ∧
        TokenFrom w.view (t, .root h name parent id now) s.collectToken := by
    intro s hs
    unfold Span.root at hs
    split at hs
    · cases hs
    · split at hs
      · cases hs
        exact ⟨rfl, rfl, .root rfl parent _⟩
      · cases hs
        exact ⟨rfl, rfl, .root rfl parent _⟩
  rw [view_send_nil _ _ hcmds]
  have heffect := effect_newSpan hw₁ hborn
  exact heffect

private theorem enterWithParents_inner {name : String} {parents : List Span} {id : SpanId} {now : Instant}
    {s : SpanInner} (hs : (Span.enterWithParents name parents id now).inner = some s) :
    s.rawSpan.id = id ∧ s.rawSpan.rawKind = .span ∧
      s.collectToken = (parents.filterMap Span.inner).flatMap SpanInner.issueCollectToken := by
  cases hs
  exact ⟨rfl, rfl, rfl⟩

omit [DecidableEq T] in
private theorem filterMap_of_mapM {hs : List Var} {spans : List Span} (h : hs.mapM w.spans = some spans) :
    spans.filterMap Span.inner = hs.filterMap w.view.inner := by
  induction hs generalizing spans with
  | nil => cases h; rfl
  | cons h' hs ih =>
    rw [List.mapM_cons] at h
    obtain ⟨span, hspan, h⟩ := Option.bind_eq_some_iff.1 h
    obtain ⟨spans', hspans, h⟩ := Option.bind_eq_some_iff.1 h
    cases h
    rw [List.filterMap_cons, List.filterMap_cons, ih hspans, inner_of_some hspan]

private theorem effect_enterWithParents {h : Var} {name : String} {parents : List Var} {id : SpanId} {now : Instant}
    (hw : w.step (t, .enterWithParents h name parents id now) = some w') :
    Effect w.view (t, .enterWithParents h name parents id now) w'.view := by
  obtain ⟨spans, hspans, hw⟩ := Option.bind_eq_some_iff.1 hw
  refine effect_newSpan hw fun s hs => ?_
  obtain ⟨hid, hkind, htoken⟩ := enterWithParents_inner hs
  rw [htoken, filterMap_of_mapM hspans, hid]
  exact ⟨rfl, hkind, .parents⟩

private theorem effect_enterWithParent {h parent : Var} {name : String} {id : SpanId} {now : Instant}
    (hw : w.step (t, .enterWithParent h name parent id now) = some w') :
    Effect w.view (t, .enterWithParent h name parent id now) w'.view := by
  obtain ⟨span, hspan, hw⟩ := Option.bind_eq_some_iff.1 hw
  refine effect_newSpan hw fun s hs => ?_
  unfold Span.enterWithParent at hs
  split at hs
  · obtain ⟨hid, hkind, htoken⟩ := enterWithParents_inner hs
    have hparents : [span].filterMap Span.inner = [parent].filterMap w.view.inner := by
      rw [List.filterMap_cons, List.filterMap_cons, inner_of_some hspan]
      rfl
    rw [htoken, hparents, hid]
    exact ⟨rfl, hkind, .parents⟩
  · cases hs

private theorem effect_enterWithLocalParent {h : Var} {name : String} {id : SpanId} {now : Instant}
    (hw : w.step (t, .enterWithLocalParent h name id now) = some w') :
    Effect w.view (t, .enterWithLocalParent h name id now) w'.view := by
  refine effect_newSpan hw fun s hs => ?_
  unfold Span.enterWithStack LocalSpanStack.currentCollectToken at hs
  split at hs
  · rename_i token htoken
    cases hs
    refine ⟨rfl, rfl, ?_⟩
    split at htoken
    · cases htoken
    · rename_i line lines hlines
      exact .line rfl hlines htoken
  · cases hs

private theorem effect_withProperties {h : Var} {properties : Properties}
    (hw : w.step (t, .withProperties h properties) = some w') :
    Effect w.view (t, .withProperties h properties) w'.view := by
  obtain ⟨span, hspan, rfl⟩ := Option.map_eq_some_iff.1 hw
  rw [view_setSpan, Option.bind_some]
  have hinner := inner_of_some hspan
  unfold Span.withProperties
  cases hs : span.inner with
  | none =>
    rw [Option.map_none, ← hs, ← hinner, Function.update_eq_self]
    exact .quiet
  | some s => exact .amended (hinner.trans hs) ⟨rfl, rfl, rfl⟩

private theorem effect_addProperties {h : Var} {properties : Properties} {id : SpanId} {now : Instant}
    (hw : w.step (t, .addProperties h properties id now) = some w') :
    Effect w.view (t, .addProperties h properties id now) w'.view := by
  obtain ⟨span, hspan, rfl⟩ := Option.map_eq_some_iff.1 hw
  refine effect_attach hspan (fun hs => ?_) fun s hs => ?_
  · simp [Span.addProperties, Span.enterWithParent, hs, Span.withProperties, Span.noop]
  · refine ⟨{ (RawSpan.beginWith id default now "" .span).extendProperties properties with
      rawKind := .properties }, rfl, by simp, ?_⟩
    simp [Span.addProperties, Span.enterWithParent, hs, Span.withProperties, Span.enterWithParents, Span.new,
      SpanInner.submitSpans, SpanInner.addProperties]

private theorem effect_addEvent {h : Var} {event : Event} {id : SpanId} {now : Instant}
    (hw : w.step (t, .addEvent h event id now) = some w') :
    Effect w.view (t, .addEvent h event id now) w'.view := by
  obtain ⟨span, hspan, rfl⟩ := Option.map_eq_some_iff.1 hw
  refine effect_attach hspan (fun hs => ?_) fun s hs => ?_
  · simp [Span.addEvent, Span.enterWithParent, hs, Span.noop]
  · refine ⟨{ RawSpan.beginWith id default now event.name .span with
      rawKind := .event, properties := event.properties }, rfl, by simp, ?_⟩
    simp [Span.addEvent, Span.enterWithParent, hs, Span.enterWithParents, Span.new, SpanInner.submitSpans]

private theorem effect_pushChildSpans {h l : Var} (hw : w.step (t, .pushChildSpans h l) = some w') :
    Effect w.view (t, .pushChildSpans h l) w'.view := by
  obtain ⟨span, hspan, hw⟩ := Option.bind_eq_some_iff.1 hw
  obtain ⟨localSpans, hl, rfl⟩ := Option.map_eq_some_iff.1 hw
  unfold Span.pushChildSpans
  cases hs : span.inner with
  | none =>
    rw [view_send_nil _ _ rfl]
    exact .quiet
  | some s =>
    simp only [SpanInner.pushChildSpans]
    split
    · rw [view_send_nil _ _ rfl]
      exact .quiet
    · rw [view_send, submitSpans_submitSpans]
      exact .pushed rfl ((inner_of_some hspan).trans hs) hl

private theorem effect_cancel {h : Var} (hw : w.step (t, .cancel h) = some w') :
    Effect w.view (t, .cancel h) w'.view := by
  obtain ⟨span, hspan, rfl⟩ := Option.map_eq_some_iff.1 hw
  have hcmds : submitSpans span.cancel = [] := by
    unfold Span.cancel
    split
    · split <;> rfl
    · rfl
  rw [view_send_nil _ _ hcmds]
  exact .quiet

theorem drop_submitted {span : Span} {s : SpanInner} (hs : span.inner = some s) (now : Instant) :
    submitSpans (span.drop now) = submission (.span (s.rawSpan.endWith now)) s.collectToken := by
  unfold Span.drop
  rw [hs, ← submitSpans_submitSpans]
  cases hc : s.collectId with
  | none => simp [hc, SpanInner.submitSpans]
  | some c => simp [hc, SpanInner.submitSpans, submitSpans]

private theorem effect_dropSpan {h : Var} {now : Instant} (hw : w.step (t, .dropSpan h now) = some w') :
    Effect w.view (t, .dropSpan h now) w'.view := by
  obtain ⟨span, hspan, rfl⟩ := Option.map_eq_some_iff.1 hw
  have hinner := inner_of_some hspan
  rw [view_send, view_setSpan, Option.bind_none]
  cases hs : span.inner with
  | none =>
    have hcmds : span.drop now = [] := by simp [Span.drop, hs]
    rw [hcmds, ← hs, ← hinner, Function.update_eq_self, submitSpans, List.filterMap_nil, List.append_nil]
    exact .quiet
  | some s =>
    have hsame : s.Same { s with rawSpan := s.rawSpan.endWith now } := ⟨rfl, rfl, rfl⟩
    rw [drop_submitted hs]
    exact .dropped (hinner.trans hs) hsame

/-- Registering a line, or finding the stack full. -/
private theorem effect_newCollector {op : Op} {token : Option CollectToken}
    (htoken : ∀ token', token = some token' → ∃ h s, w.view.inner h = some s ∧ token' = s.issueCollectToken) :
    Effect w.view (t, op)
      { w.view with
        spanStack := Function.update w.view.spanStack t (LocalCollector.new token (w.spanStack t)).2 } := by
  unfold LocalCollector.new
  cases hr : (w.spanStack t).registerSpanLine token with
  | none => exact .lost (Or.inl rfl)
  | some out => exact .registered (LocalSpanStack.registerSpanLine_cases hr) htoken

private theorem effect_setLocalParent {g h : Var} (hw : w.step (t, .setLocalParent g h) = some w') :
    Effect w.view (t, .setLocalParent g h) w'.view := by
  obtain ⟨span, hspan, hw⟩ := Option.bind_eq_some_iff.1 hw
  simp only at hw
  split at hw
  · cases hw
    unfold Span.attachIntoStack
    cases hs : span.inner with
    | none => exact .lost (Or.inl rfl)
    | some s =>
      refine effect_newCollector fun token' htoken => ?_
      cases htoken
      exact ⟨h, s, (inner_of_some hspan).trans hs, rfl⟩
  · cases hw

private theorem effect_startCollector {k : Var} (hw : w.step (t, .startCollector k) = some w') :
    Effect w.view (t, .startCollector k) w'.view := by
  simp only [World.step] at hw
  split at hw
  · cases hw
    exact effect_newCollector fun token' htoken => by cases htoken
  · cases hw

/-- Collecting finds nothing, or takes the entries and the token of the top line. -/
private theorem collectSpansAndToken_cases (collector : LocalCollector) (stack : LocalSpanStack) (now : Instant) :
    (Lost stack (collector.collectSpansAndToken stack now).2 ∧
        (collector.collectSpansAndToken stack now).1 = (⟨[], now⟩, none)) ∨
      ∃ line, stack.spanLines = line :: (collector.collectSpansAndToken stack now).2.spanLines ∧
        (collector.collectSpansAndToken stack now).1 = (⟨line.spanQueue.spanQueue, now⟩, line.collectToken) := by
  unfold LocalCollector.collectSpansAndToken
  cases collector.inner with
  | none => exact Or.inl ⟨Or.inl rfl, rfl⟩
  | some handle =>
    simp only
    rcases hout : stack.unregisterAndCollect handle with ⟨out, stack'⟩
    rcases LocalSpanStack.unregisterAndCollect_cases hout with
      ⟨-, rfl, rfl⟩ | ⟨line, lines, hlines, rfl, rfl | rfl⟩
    · exact Or.inl ⟨Or.inl rfl, rfl⟩
    · exact Or.inl ⟨Or.inr ⟨line, hlines⟩, rfl⟩
    · exact Or.inr ⟨line, hlines, rfl⟩

private theorem effect_dropGuard {g : Var} {now : Instant} (hw : w.step (t, .dropGuard g now) = some w') :
    Effect w.view (t, .dropGuard g now) w'.view := by
  obtain ⟨guard, -, rfl⟩ := Option.map_eq_some_iff.1 hw
  rw [view_send]
  unfold LocalParentGuard.drop
  cases guard.inner with
  | none =>
    simp only [submitSpans, List.filterMap_nil, List.append_nil]
    exact .lost (Or.inl rfl)
  | some collector =>
    simp only
    rcases collectSpansAndToken_cases collector (w.spanStack t) now with ⟨hlost, hout⟩ | ⟨line, hlines, hout⟩
    · rw [hout]
      simp only [submitSpans, List.filterMap_nil, List.append_nil]
      exact .lost hlost
    · rw [hout]
      cases htoken : line.collectToken with
      | none =>
        simp only [submitSpans, List.filterMap_nil, List.append_nil]
        exact .lost (Or.inr ⟨line, hlines⟩)
      | some token =>
        simp only [submitSpans_submitSpans]
        exact .closed hlines htoken

private theorem effect_collect {k l : Var} {now : Instant} (hw : w.step (t, .collect k l now) = some w') :
    Effect w.view (t, .collect k l now) w'.view := by
  obtain ⟨collector, -, hw⟩ := Option.bind_eq_some_iff.1 hw
  simp only at hw
  split at hw
  · rename_i hfree
    cases hw
    have hfree : w.view.collected l = none := Option.isNone_iff_eq_none.1 hfree
    unfold LocalCollector.collect
    rcases collectSpansAndToken_cases collector (w.spanStack t) now with ⟨hlost, hout⟩ | ⟨line, hlines, hout⟩
    · simp only [hout]
      exact .collectedNone hlost hfree
    · simp only [hout]
      exact .collected hlines hfree
  · cases hw

private theorem effect_dropCollector {k : Var} (hw : w.step (t, .dropCollector k) = some w') :
    Effect w.view (t, .dropCollector k) w'.view := by
  obtain ⟨collector, -, rfl⟩ := Option.map_eq_some_iff.1 hw
  suffices hlost : Lost (w.spanStack t) (collector.drop (w.spanStack t)) from .lost hlost
  unfold LocalCollector.drop
  cases collector.inner with
  | none => exact Or.inl rfl
  | some handle =>
    rcases hout : (w.spanStack t).unregisterAndCollect handle with ⟨out, stack'⟩
    simp only [hout]
    rcases LocalSpanStack.unregisterAndCollect_cases hout with ⟨-, -, rfl⟩ | ⟨line, lines, hlines, rfl, -⟩
    · exact Or.inl rfl
    · exact Or.inr ⟨line, hlines⟩

/-- Recording leaves the stack as it was or changes its top line. -/
private theorem effect_recorded {op : Op} {label : Option (SpanId × RawKind)} {stack : LocalSpanStack}
    (htop : stack = w.spanStack t ∨ (w.spanStack t).TopChange label stack)
    (hlabel : ∀ x k, label = some (x, k) → op.id? = some x ∧ (k = .span → op.usesLine)) :
    Effect w.view (t, op) { w.view with spanStack := Function.update w.view.spanStack t stack } := by
  rcases htop with rfl | htop
  · exact .lost (Or.inl rfl)
  · exact .recorded htop hlabel

private theorem effect_enterLocal {v : Var} {name : String} {id : SpanId} {now : Instant}
    (hw : w.step (t, .enterLocal v name id now) = some w') :
    Effect w.view (t, .enterLocal v name id now) w'.view := by
  obtain ⟨out, hout, hw⟩ := Option.bind_eq_some_iff.1 hw
  split at hw
  · cases hw
    obtain ⟨⟨handle, stack⟩, henter, rfl⟩ := Option.map_eq_some_iff.1 hout
    refine effect_recorded (Or.inr (LocalSpanStack.enterSpan_cases henter)) fun x k h => ?_
    cases h
    exact ⟨rfl, fun _ => rfl⟩
  · cases hw

private theorem effect_localWithProperties {v : Var} {properties : Properties}
    (hw : w.step (t, .localWithProperties v properties) = some w') :
    Effect w.view (t, .localWithProperties v properties) w'.view := by
  obtain ⟨span, -, hw⟩ := Option.bind_eq_some_iff.1 hw
  obtain ⟨stack, hstack, rfl⟩ := Option.map_eq_some_iff.1 hw
  exact effect_recorded (LocalSpan.withProperties_cases hstack) fun x k h => by cases h

private theorem effect_dropLocal {v : Var} {now : Instant} (hw : w.step (t, .dropLocal v now) = some w') :
    Effect w.view (t, .dropLocal v now) w'.view := by
  obtain ⟨span, -, hw⟩ := Option.bind_eq_some_iff.1 hw
  obtain ⟨stack, hstack, rfl⟩ := Option.map_eq_some_iff.1 hw
  exact effect_recorded (LocalSpan.drop_cases hstack) fun x k h => by cases h

/-- The collect id in the token of a root span: a sampled root draws the next one. -/
def World.rootCollectId (w : World T) (parent : SpanContext) : CollectId :=
  if parent.sampled then w.nextCollectId else notSampledCollectId

/-- A root is a no-op without a reporter, and born with the token of its context with one. -/
theorem root_step {h : Var} {name : String} {parent : SpanContext} {id : SpanId} {now : Instant}
    (hw : w.step (t, .root h name parent id now) = some w') :
    (w.reporterReady = false ∧ w'.view = w.view) ∨
      (w.reporterReady = true ∧ w.view.inner h = none ∧ ∃ s, s.rawSpan.id = id ∧ s.rawSpan.rawKind = .span ∧
        s.collectToken = Span.rootToken parent (w.rootCollectId parent) ∧
        w'.view = { w.view with inner := Function.update w.view.inner h (some s) }) := by
  obtain ⟨w₁, hw₁, rfl⟩ := Option.map_eq_some_iff.1 hw
  obtain ⟨hfree, rfl⟩ := newSpan_eq_some hw₁
  have hnone : w.view.inner h = none := inner_of_none hfree
  unfold Span.root World.rootCollectId
  by_cases hready : w.reporterReady = true
  · right
    refine ⟨hready, hnone, ?_⟩
    by_cases hs : parent.sampled = true
    · simp only [hready, hs, Bool.not_true, Bool.false_eq_true, ↓reduceIte]
      refine ⟨⟨RawSpan.beginWith id default now name .span, Span.rootToken parent w.nextCollectId,
        some w.nextCollectId⟩, rfl, rfl, rfl, ?_⟩
      rw [view_send_nil _ _ rfl, view_setSpan]
      rfl
    · simp only [hready, hs, Bool.not_true, Bool.false_eq_true, ↓reduceIte]
      refine ⟨⟨RawSpan.beginWith id default now name .span, Span.rootToken parent notSampledCollectId,
        some notSampledCollectId⟩, rfl, rfl, rfl, ?_⟩
      rw [view_send_nil _ _ rfl, view_setSpan]
      rfl
  · left
    have hready' : w.reporterReady = false := by simpa using hready
    refine ⟨hready', ?_⟩
    simp only [hready', Bool.not_false, ↓reduceIte]
    rw [view_send_nil _ _ rfl, view_setSpan]
    have hupdate : Function.update w.view.inner h none = w.view.inner := by rw [← hnone, Function.update_eq_self]
    change { w.view with inner := Function.update w.view.inner h none } = w.view
    rw [hupdate]

end Cases

/-- Every step of a program is one of the effects. -/
theorem step_effect [DecidableEq T] {w w' : World T} {a : T × Op} (hw : w.step a = some w') :
    Effect w.view a w'.view := by
  obtain ⟨t, op⟩ := a
  cases op with
  | setReporter => cases hw; exact .quiet
  | root => exact effect_root hw
  | enterWithParent => exact effect_enterWithParent hw
  | enterWithParents => exact effect_enterWithParents hw
  | enterWithLocalParent => exact effect_enterWithLocalParent hw
  | withProperties => exact effect_withProperties hw
  | addProperties => exact effect_addProperties hw
  | addEvent => exact effect_addEvent hw
  | pushChildSpans => exact effect_pushChildSpans hw
  | cancel => exact effect_cancel hw
  | dropSpan => exact effect_dropSpan hw
  | setLocalParent => exact effect_setLocalParent hw
  | dropGuard => exact effect_dropGuard hw
  | startCollector => exact effect_startCollector hw
  | collect => exact effect_collect hw
  | dropCollector => exact effect_dropCollector hw
  | enterLocal => exact effect_enterLocal hw
  | localWithProperties => exact effect_localWithProperties hw
  | dropLocal => exact effect_dropLocal hw
  | localAddEvent event id now =>
    cases hw
    refine effect_recorded ((w.spanStack t).addEvent_cases id now event) fun x k h => ?_
    cases h
    exact ⟨rfl, fun hk => by cases hk⟩
  | localAddProperties properties id =>
    cases hw
    refine effect_recorded ((w.spanStack t).addProperties_cases id properties) fun x k h => ?_
    cases h
    exact ⟨rfl, fun hk => by cases hk⟩

end Fastrace
