import Fastrace.Scopes

/-!
# The context getters (`collector/id.rs`)

`SpanContext::from_span` reads the context of a span from the first item of the token it would issue, if there is one.
`SpanContext::current_local_parent` reads it from the token of the line on top of the stack, by index.  A span entered
with no parents, or with no-ops only, is not a no-op but has a token without items; made the local parent, it makes
the second getter panic.  On spans with an item the two agree (`context_getters`).
-/

namespace Fastrace

def CollectTokenItem.context (item : CollectTokenItem) : SpanContext where
  traceId := item.traceId
  spanId := item.parentId
  sampled := item.isSampled

def SpanContext.fromSpan (span : Span) : Option SpanContext :=
  span.inner.bind fun inner => inner.issueCollectToken.head?.map CollectTokenItem.context

/-- `none` where indexing panics. -/
def SpanContext.currentLocalParent (stack : LocalSpanStack) : Option (Option SpanContext) :=
  match stack.currentCollectToken with
  | none => some none
  | some token => token[0]?.map fun item => some item.context

/-! ### Right after a span is made the local parent -/

/-- The line of a new local parent is on top, and its token is the one the span issues. -/
private theorem attach_currentCollectToken {s : SpanInner} {stack : LocalSpanStack}
    (hroom : stack.spanLines.length < stack.capacity) :
    (Span.attachIntoStack ⟨some s⟩ stack).2.currentCollectToken = some s.issueCollectToken := by
  have hregister : ¬ stack.spanLines.length ≥ stack.capacity := by omega
  simp only [Span.attachIntoStack, SpanInner.captureLocalSpans, LocalCollector.new,
    LocalSpanStack.registerSpanLine, if_neg hregister, LocalSpanStack.currentCollectToken,
    SpanLine.currentCollectToken, SpanLine.new, Option.map_some, SpanQueue.currentParentId, SpanQueue.withCapacity,
    Option.getD_none]
  exact congrArg some (List.map_id' _)

private theorem getters_agree_iff {s : SpanInner} {stack : LocalSpanStack}
    (hroom : stack.spanLines.length < stack.capacity) :
    SpanContext.currentLocalParent (Span.attachIntoStack ⟨some s⟩ stack).2 = some (SpanContext.fromSpan ⟨some s⟩) ↔
      s.collectToken ≠ [] := by
  rw [SpanContext.currentLocalParent, attach_currentCollectToken hroom]
  cases htoken : s.collectToken with
  | nil => simp [SpanContext.fromSpan, SpanInner.issueCollectToken, issueToken, htoken]
  | cons item items => simp [SpanContext.fromSpan, SpanInner.issueCollectToken, issueToken, htoken]

private theorem currentLocalParent_eq_none {stack : LocalSpanStack} : SpanContext.currentLocalParent stack = none ↔
    ∃ line lines, stack.spanLines = line :: lines ∧ line.collectToken = some [] := by
  unfold SpanContext.currentLocalParent LocalSpanStack.currentCollectToken
  cases hlines : stack.spanLines with
  | nil => simp
  | cons line lines =>
    cases htoken : line.collectToken with
    | none => simp [SpanLine.currentCollectToken, htoken]
    | some token =>
      cases token with
      | nil => simp [SpanLine.currentCollectToken, htoken]
      | cons item items => simp [SpanLine.currentCollectToken, htoken]

/-! ### In programs -/

variable {T : Type} [DecidableEq T]

/-- A span is made a local parent only if its token has an item. -/
def NonemptyParent (w : World T) (a : T × Op) : Prop :=
  ∀ g h s, a.2 = .setLocalParent g h → w.inner h = some s → s.collectToken ≠ []

/-- No line of the stack has a token without items. -/
def NonemptyTokens (stack : LocalSpanStack) : Prop := ∀ frame ∈ stack.frames, frame.2 ≠ some []

private theorem nonempty_new {stack : LocalSpanStack} (h : NonemptyTokens stack) {token : Option CollectToken}
    (htoken : token ≠ some []) : NonemptyTokens (LocalCollector.new token stack).2 := by
  intro frame hframe
  rcases newCollector_frames token stack with ⟨-, hsame⟩ | ⟨handle, -, hnew⟩
  · rw [hsame] at hframe
    exact h frame hframe
  · rw [hnew] at hframe
    rcases List.mem_cons.1 hframe with rfl | hframe
    · exact htoken
    · exact h frame hframe

private theorem nonempty_unregister {stack : LocalSpanStack} (h : NonemptyTokens stack) (handle : SpanLineHandle) :
    NonemptyTokens (stack.unregisterAndCollect handle).2 := by
  rcases hout : stack.unregisterAndCollect handle with ⟨out, stack'⟩
  rcases LocalSpanStack.unregisterAndCollect_cases hout with ⟨-, -, rfl⟩ | ⟨line, lines, hlines, rfl, -⟩
  · exact h
  · intro frame hframe
    exact h frame (by rw [LocalSpanStack.frames, hlines]; exact List.mem_cons_of_mem _ hframe)

private theorem nonempty_collect {stack : LocalSpanStack} (h : NonemptyTokens stack) (collector : LocalCollector)
    (now : Instant) : NonemptyTokens (collector.collectSpansAndToken stack now).2 := by
  unfold LocalCollector.collectSpansAndToken
  cases collector.inner with
  | none => exact h
  | some handle => exact nonempty_unregister h handle

private theorem nonempty_step {w w' : World T} {a : T × Op} (h : ∀ t, NonemptyTokens (w.spanStack t))
    (hparent : NonemptyParent w a) (hw : w.step a = some w') : ∀ t, NonemptyTokens (w'.spanStack t) := by
  obtain ⟨t, op⟩ := a
  cases op with
  | setLocalParent g h' =>
    obtain ⟨span, hspan, hw⟩ := Option.bind_eq_some_iff.1 hw
    split at hw
    · cases hw
      refine update_forall h t ?_
      unfold Span.attachIntoStack
      cases hs : span.inner with
      | none => exact h t
      | some s =>
        have hne := hparent g h' s rfl (by rw [World.inner, hspan]; exact hs)
        refine nonempty_new (h t) ?_
        simpa [SpanInner.issueCollectToken, issueToken] using hne
    · cases hw
  | startCollector k =>
    simp only [World.step] at hw
    split at hw
    · cases hw
      exact update_forall h t (nonempty_new (h t) (by simp))
    · cases hw
  | dropGuard g now =>
    obtain ⟨guard, -, rfl⟩ := Option.map_eq_some_iff.1 hw
    refine update_forall h t ?_
    unfold LocalParentGuard.drop
    cases guard.inner with
    | none => exact h t
    | some collector =>
      dsimp only
      split <;> exact nonempty_collect (h t) collector now
  | collect k l now =>
    obtain ⟨collector, -, hw⟩ := Option.bind_eq_some_iff.1 hw
    split at hw
    · cases hw
      exact update_forall h t (nonempty_collect (h t) collector now)
    · cases hw
  | dropCollector k =>
    obtain ⟨collector, -, rfl⟩ := Option.map_eq_some_iff.1 hw
    refine update_forall h t ?_
    unfold LocalCollector.drop
    cases collector.inner with
    | none => exact h t
    | some handle => exact nonempty_unregister (h t) handle
  | _ =>
    intro u
    rw [NonemptyTokens, (same_of_other rfl rfl hw).2 u]
    exact h u

/-- On a stack with room, the getters agree on a span that has just been made the local parent just when its token has
an item; `current_local_parent` panics just when the line on top has a token without items, and it never does where
only spans with an item are made local parents.  It is not called from inside a property closure, which runs with the
stack borrowed. -/
theorem context_getters {as : List (T × Op)} {w : World T} (h : Steps.run World.step World.init as = some w) :
    (∀ h s stack, w.inner h = some s → stack.spanLines.length < stack.capacity →
      (SpanContext.currentLocalParent (Span.attachIntoStack ⟨some s⟩ stack).2 =
        some (SpanContext.fromSpan ⟨some s⟩) ↔ s.collectToken ≠ [])) ∧
    (∀ t, SpanContext.currentLocalParent (w.spanStack t) = none ↔
      ∃ line lines, (w.spanStack t).spanLines = line :: lines ∧ line.collectToken = some []) ∧
    (Steps.Meet World.step NonemptyParent World.init as →
      ∀ t, SpanContext.currentLocalParent (w.spanStack t) ≠ none) := by
  refine ⟨fun _ _ _ _ hroom => getters_agree_iff hroom, fun _ => currentLocalParent_eq_none, fun hmeet t hpanic => ?_⟩
  have htokens : ∀ t, NonemptyTokens (w.spanStack t) :=
    Steps.meet_induction (fun _ _ _ => nonempty_step) (fun _ frame hframe => by cases hframe) hmeet h
  obtain ⟨line, lines, hlines, htoken⟩ := currentLocalParent_eq_none.1 hpanic
  refine htokens t line.frame ?_ htoken
  rw [LocalSpanStack.frames, hlines]
  exact List.mem_cons_self ..

def contextProgram : List (Unit × Op) := [
  ((), .setReporter),
  ((), .root 0 "root" ⟨⟨1⟩, ⟨9⟩, true⟩ ⟨1⟩ ⟨10⟩),
  ((), .setLocalParent 0 0)]

theorem context_getters_root : ∃ w s, Steps.run World.step World.init contextProgram = some w ∧ w.inner 0 = some s ∧
    SpanContext.currentLocalParent (Span.attachIntoStack ⟨some s⟩ (w.spanStack ())).2 =
      some (SpanContext.fromSpan ⟨some s⟩) ∧
    SpanContext.currentLocalParent (w.spanStack ()) ≠ none := by
  obtain ⟨w, s, hw, hs, htoken, hroom, hline⟩ : ∃ w s, Steps.run World.step World.init contextProgram = some w ∧
      w.inner 0 = some s ∧ s.collectToken ≠ [] ∧
      (w.spanStack ()).spanLines.length < (w.spanStack ()).capacity ∧
      ∀ line lines, (w.spanStack ()).spanLines = line :: lines → line.collectToken ≠ some [] := by
    refine ⟨_, _, rfl, rfl, by decide, by decide, fun line lines hlines => ?_⟩
    cases hlines
    decide
  refine ⟨w, s, hw, hs, ((context_getters hw).1 0 s _ hs hroom).2 htoken, fun hpanic => ?_⟩
  obtain ⟨line, lines, hlines, hnil⟩ := ((context_getters hw).2.1 ()).1 hpanic
  exact hline line lines hlines hnil

/-- A join of no spans is made the local parent. -/
def emptyJoinProgram : List (Unit × Op) := [
  ((), .enterWithParents 0 "join" [] ⟨1⟩ ⟨10⟩),
  ((), .setLocalParent 0 0)]

theorem getter_panics : ∃ w s, Steps.run World.step World.init emptyJoinProgram = some w ∧
    w.inner 0 = some s ∧ SpanContext.fromSpan ⟨some s⟩ = none ∧
    SpanContext.currentLocalParent (w.spanStack ()) = none := by
  refine ⟨_, _, rfl, rfl, rfl, rfl⟩

end Fastrace
