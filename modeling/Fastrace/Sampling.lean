import Fastrace.Roots
import Fastrace.Joins

/-!
# Sampling

The flag `is_sampled` of a token item is read in three places: a submission keeps the sampled items, a line records
when any item of its token is sampled, and only a sampled root starts a collection.  The three agree: a program cannot
tell two tokens apart that have the same sampled items (`step_sampledPart`), so it sends the same commands when it
leaves out the unsampled parents of `enter_with_parents` (`sampling_noninterference`).
-/

namespace Fastrace

/-! ### The sampled part of a world -/

def SpanInner.sampledPart (s : SpanInner) : SpanInner := { s with collectToken := retainSampled s.collectToken }

def Span.sampledPart (span : Span) : Span := ⟨span.inner.map SpanInner.sampledPart⟩

def SpanLine.sampledPart (line : SpanLine) : SpanLine :=
  { line with collectToken := line.collectToken.map retainSampled }

def LocalSpanStack.sampledPart (stack : LocalSpanStack) : LocalSpanStack :=
  { stack with spanLines := stack.spanLines.map SpanLine.sampledPart }

def World.sampledPart {T : Type} (w : World T) : World T :=
  { w with
    spans := fun h => (w.spans h).map Span.sampledPart
    spanStack := fun t => (w.spanStack t).sampledPart }

private theorem retainSampled_append (token token' : CollectToken) :
    retainSampled (token ++ token') = retainSampled token ++ retainSampled token' := List.filter_append ..

@[simp] theorem retainSampled_issue (id : SpanId) (token : CollectToken) :
    retainSampled (issueToken id token) = issueToken id (retainSampled token) := by
  unfold retainSampled issueToken
  rw [List.filter_map]
  rfl

@[simp] theorem any_retainSampled (token : CollectToken) :
    (retainSampled token).any (·.isSampled) = token.any (·.isSampled) := by
  simp [retainSampled, List.any_filter]

@[simp] theorem sampledPart_idem_span (span : Span) : span.sampledPart.sampledPart = span.sampledPart := by
  cases h : span.inner <;> simp [Span.sampledPart, SpanInner.sampledPart, h]

@[simp] theorem sampledPart_idem_line (line : SpanLine) : line.sampledPart.sampledPart = line.sampledPart := by
  simp [SpanLine.sampledPart, Function.comp_def]

@[simp] theorem sampledPart_idem_stack (stack : LocalSpanStack) :
    stack.sampledPart.sampledPart = stack.sampledPart := by
  simp [LocalSpanStack.sampledPart, Function.comp_def]

/-- A submission keeps the sampled items only. -/
@[simp] theorem submitSpans_retain (spans : SpanSet) (token : CollectToken) :
    GlobalCollect.submitSpans spans (retainSampled token) = GlobalCollect.submitSpans spans token := by
  simp [GlobalCollect.submitSpans]

/-! ### Lines and stacks -/

section Stack

variable (stack : LocalSpanStack) (id : SpanId) (now : Instant)

/-- A line with the same sampled items records the same. -/
private theorem new_sampledPart (capacity epoch : Nat) {token token' : Option CollectToken}
    (h : token'.map retainSampled = token.map retainSampled) :
    (SpanLine.new capacity epoch token').sampledPart = (SpanLine.new capacity epoch token).sampledPart := by
  cases token with
  | none => rw [Option.map_none, Option.map_eq_none_iff] at h; rw [h]
  | some token =>
    rw [Option.map_some, Option.map_eq_some_iff] at h
    obtain ⟨token', rfl, h⟩ := h
    have hany : token'.any (·.isSampled) = token.any (·.isSampled) := by
      rw [← any_retainSampled token', h, any_retainSampled]
    simp [SpanLine.new, SpanLine.sampledPart, h, hany]

private theorem enterSpan_sampledPart (name : String) :
    stack.sampledPart.enterSpan id now name =
      (stack.enterSpan id now name).map fun p => (p.1, p.2.sampledPart) := by
  rcases stack with ⟨_ | ⟨line, lines⟩, capacity, epoch⟩
  · rfl
  · simp only [LocalSpanStack.enterSpan, LocalSpanStack.sampledPart, List.map_cons, SpanLine.startSpan,
      SpanLine.sampledPart]
    cases line.isSampled with
    | false => rfl
    | true => cases line.spanQueue.startSpan id now name <;> rfl

private theorem exitSpan_sampledPart (handle : LocalSpanHandle) :
    stack.sampledPart.exitSpan handle now = (stack.exitSpan handle now).map LocalSpanStack.sampledPart := by
  rcases stack with ⟨_ | ⟨line, lines⟩, capacity, epoch⟩
  · rfl
  · simp only [LocalSpanStack.exitSpan, LocalSpanStack.sampledPart, List.map_cons, SpanLine.finishSpan,
      SpanLine.sampledPart]
    split
    · cases line.spanQueue.finishSpan handle.spanHandle now <;> rfl
    · rfl

private theorem withProperties_sampledPart (handle : LocalSpanHandle) (properties : Properties) :
    stack.sampledPart.withProperties handle properties =
      (stack.withProperties handle properties).map LocalSpanStack.sampledPart := by
  rcases stack with ⟨_ | ⟨line, lines⟩, capacity, epoch⟩
  · rfl
  · simp only [LocalSpanStack.withProperties, LocalSpanStack.sampledPart, List.map_cons, SpanLine.withProperties,
      SpanLine.sampledPart]
    split
    · rfl
    · split
      · cases line.spanQueue.withProperties handle.spanHandle properties <;> rfl
      · rfl

private theorem localWithProperties_sampledPart (span : LocalSpan) (properties : Properties) :
    span.withProperties stack.sampledPart properties =
      (span.withProperties stack properties).map LocalSpanStack.sampledPart := by
  unfold LocalSpan.withProperties
  cases span.inner with
  | none => rfl
  | some handle => exact withProperties_sampledPart _ handle properties

private theorem localDrop_sampledPart (span : LocalSpan) :
    span.drop stack.sampledPart now = (span.drop stack now).map LocalSpanStack.sampledPart := by
  unfold LocalSpan.drop
  cases span.inner with
  | none => rfl
  | some handle => exact exitSpan_sampledPart _ now handle

private theorem addEvent_sampledPart (event : Event) :
    stack.sampledPart.addEvent id now event = (stack.addEvent id now event).sampledPart := by
  rcases stack with ⟨_ | ⟨line, lines⟩, capacity, epoch⟩
  · rfl
  · simp only [LocalSpanStack.addEvent, LocalSpanStack.sampledPart, List.map_cons, SpanLine.addEvent,
      SpanLine.sampledPart]
    cases h : line.isSampled <;> simp [h]

private theorem addProperties_sampledPart (properties : Properties) :
    stack.sampledPart.addProperties id properties = (stack.addProperties id properties).sampledPart := by
  rcases stack with ⟨_ | ⟨line, lines⟩, capacity, epoch⟩
  · rfl
  · simp only [LocalSpanStack.addProperties, LocalSpanStack.sampledPart, List.map_cons, SpanLine.addProperties,
      SpanLine.sampledPart]
    cases h : line.isSampled <;> simp [h]

private theorem currentCollectToken_sampledPart :
    stack.sampledPart.currentCollectToken = stack.currentCollectToken.map retainSampled := by
  rcases stack with ⟨_ | ⟨line, lines⟩, capacity, epoch⟩
  · rfl
  · simp only [LocalSpanStack.currentCollectToken, LocalSpanStack.sampledPart, List.map_cons,
      SpanLine.currentCollectToken, SpanLine.sampledPart, Option.map_map]
    congr 1
    funext token
    simp only [Function.comp_apply, retainSampled, List.filter_map]
    rfl

/-- A collector made with the same sampled items. -/
private theorem newCollector_sampledPart {token token' : Option CollectToken}
    (h : token'.map retainSampled = token.map retainSampled) :
    (LocalCollector.new token' stack.sampledPart).1 = (LocalCollector.new token stack).1 ∧
      (LocalCollector.new token' stack.sampledPart).2.sampledPart =
        (LocalCollector.new token stack).2.sampledPart := by
  unfold LocalCollector.new LocalSpanStack.registerSpanLine LocalSpanStack.sampledPart
  by_cases hfull : stack.spanLines.length ≥ stack.capacity
  · simp [hfull, Function.comp_def]
  · simp [hfull, Function.comp_def, new_sampledPart _ _ h]

private theorem collectSpansAndToken_sampledPart (collector : LocalCollector) :
    collector.collectSpansAndToken stack.sampledPart now =
      (((collector.collectSpansAndToken stack now).1.1,
          (collector.collectSpansAndToken stack now).1.2.map retainSampled),
        (collector.collectSpansAndToken stack now).2.sampledPart) := by
  unfold LocalCollector.collectSpansAndToken LocalSpanStack.unregisterAndCollect LocalSpanStack.sampledPart
  cases collector.inner with
  | none => rfl
  | some handle =>
    cases hlines : stack.spanLines with
    | nil => simp [hlines]
    | cons line lines =>
      by_cases hepoch : line.epoch = handle.spanLineEpoch
      · simp [SpanLine.collect, SpanLine.sampledPart, hepoch]
      · simp [SpanLine.collect, SpanLine.sampledPart, hepoch]

private theorem dropCollector_sampledPart (collector : LocalCollector) :
    collector.drop stack.sampledPart = (collector.drop stack).sampledPart := by
  unfold LocalCollector.drop LocalSpanStack.unregisterAndCollect LocalSpanStack.sampledPart
  cases collector.inner with
  | none => rfl
  | some handle => cases hlines : stack.spanLines <;> simp [hlines]

private theorem dropGuard_sampledPart (guard : LocalParentGuard) :
    guard.drop stack.sampledPart now = ((guard.drop stack now).1, (guard.drop stack now).2.sampledPart) := by
  unfold LocalParentGuard.drop
  cases guard.inner with
  | none => rfl
  | some collector =>
    simp only [collectSpansAndToken_sampledPart]
    cases (collector.collectSpansAndToken stack now).1.2 <;> simp

end Stack

/-! ### Spans -/

section Span

variable (span : Span)

@[simp] theorem inner_sampledPart : span.sampledPart.inner = span.inner.map SpanInner.sampledPart := rfl

@[simp] theorem issueCollectToken_sampledPart (s : SpanInner) :
    s.sampledPart.issueCollectToken = retainSampled s.issueCollectToken := by
  simp [SpanInner.issueCollectToken, SpanInner.sampledPart]

private theorem new_span_sampledPart {token token' : CollectToken} (h : retainSampled token' = retainSampled token)
    (name : String) (collectId : Option CollectId) (id : SpanId) (now : Instant) :
    (Span.new token' name collectId id now).sampledPart = (Span.new token name collectId id now).sampledPart := by
  simp [Span.new, Span.sampledPart, SpanInner.sampledPart, h]

/-- Parents with the same sampled items have children with the same sampled items. -/
private theorem enterWithParents_sampledPart {parents parents' : List Span}
    (h : parents'.map Span.sampledPart = parents.map Span.sampledPart) (name : String) (id : SpanId) (now : Instant) :
    (Span.enterWithParents name parents' id now).sampledPart =
      (Span.enterWithParents name parents id now).sampledPart := by
  have htoken : ∀ parents : List Span,
      retainSampled ((parents.filterMap Span.inner).flatMap SpanInner.issueCollectToken) =
        ((parents.map Span.sampledPart).filterMap Span.inner).flatMap SpanInner.issueCollectToken := by
    intro parents
    induction parents with
    | nil => rfl
    | cons span parents ih =>
      rw [List.map_cons, List.filterMap_cons, List.filterMap_cons, inner_sampledPart]
      cases span.inner with
      | none => exact ih
      | some s =>
        simp only [Option.map_some, List.flatMap_cons, retainSampled_append, ih, issueCollectToken_sampledPart]
  exact new_span_sampledPart (by rw [htoken, htoken, h]) name none id now

private theorem enterWithParent_sampledPart (name : String) (id : SpanId) (now : Instant) :
    (Span.enterWithParent name span.sampledPart id now).sampledPart =
      (Span.enterWithParent name span id now).sampledPart := by
  unfold Span.enterWithParent
  cases h : span.inner with
  | none => simp [h]
  | some s =>
    simp only [inner_sampledPart, h, Option.map_some]
    exact enterWithParents_sampledPart (by simp) name id now

private theorem enterWithStack_sampledPart (name : String) (stack : LocalSpanStack) (id : SpanId) (now : Instant) :
    (Span.enterWithStack name stack.sampledPart id now).sampledPart =
      (Span.enterWithStack name stack id now).sampledPart := by
  unfold Span.enterWithStack
  rw [currentCollectToken_sampledPart]
  cases stack.currentCollectToken with
  | none => rfl
  | some token => exact new_span_sampledPart (retainSampled_idem token) name none id now

private theorem attachIntoStack_sampledPart (stack : LocalSpanStack) :
    (span.sampledPart.attachIntoStack stack.sampledPart).1 = (span.attachIntoStack stack).1 ∧
      (span.sampledPart.attachIntoStack stack.sampledPart).2.sampledPart =
        (span.attachIntoStack stack).2.sampledPart := by
  unfold Span.attachIntoStack
  cases h : span.inner with
  | none => simp [h]
  | some s =>
    have htoken : (some s.sampledPart.issueCollectToken).map retainSampled =
        (some s.issueCollectToken).map retainSampled := by simp
    have hnew := newCollector_sampledPart stack htoken
    simp only [inner_sampledPart, h, Option.map_some, SpanInner.captureLocalSpans]
    exact ⟨by rw [hnew.1], hnew.2⟩

private theorem withProperties_span_sampledPart (properties : Properties) :
    (span.sampledPart.withProperties properties).sampledPart = (span.withProperties properties).sampledPart := by
  unfold Span.withProperties Span.sampledPart
  cases span.inner <;> simp [SpanInner.addProperties, SpanInner.sampledPart]

private theorem addProperties_span_sampledPart (properties : Properties) (id : SpanId) (now : Instant) :
    span.sampledPart.addProperties properties id now = span.addProperties properties id now := by
  cases h : span.inner <;>
    simp [Span.addProperties, Span.enterWithParent, h, Span.withProperties, Span.noop, Span.enterWithParents,
      Span.new, SpanInner.submitSpans, SpanInner.addProperties]

private theorem addEvent_span_sampledPart (event : Event) (id : SpanId) (now : Instant) :
    span.sampledPart.addEvent event id now = span.addEvent event id now := by
  cases h : span.inner <;>
    simp [Span.addEvent, Span.enterWithParent, h, Span.noop, Span.enterWithParents, Span.new, SpanInner.submitSpans]

private theorem pushChildSpans_sampledPart (localSpans : LocalSpansInner) :
    span.sampledPart.pushChildSpans localSpans = span.pushChildSpans localSpans := by
  cases h : span.inner <;> simp [Span.pushChildSpans, SpanInner.pushChildSpans, h]

private theorem cancel_sampledPart : span.sampledPart.cancel = span.cancel := by
  cases h : span.inner <;> simp [Span.cancel, h, SpanInner.sampledPart]

private theorem drop_sampledPart (now : Instant) : span.sampledPart.drop now = span.drop now := by
  cases h : span.inner with
  | none => simp [Span.drop, h]
  | some s => simp [Span.drop, h, SpanInner.sampledPart, SpanInner.submitSpans]

end Span

/-! ### A step -/

section Step

variable {T : Type} (w : World T)

private theorem map_update {α β γ : Type} [DecidableEq α] (f : α → β) (g : β → γ) (a : α) (b : β) :
    (fun x => g (Function.update f a b x)) = Function.update (fun x => g (f x)) a (g b) := by
  funext x
  by_cases hx : x = a
  · subst hx; simp
  · simp [hx]

private theorem setSpan_sampledPart (h : Var) {span span' : Option Span}
    (hs : span'.map Span.sampledPart = span.map Span.sampledPart) :
    (w.sampledPart.setSpan h span').sampledPart = (w.setSpan h span).sampledPart := by
  unfold World.sampledPart World.setSpan
  simp only [map_update, hs, Option.map_map, sampledPart_idem_stack]
  congr 2
  funext h'
  cases w.spans h' <;> simp

private theorem newSpan_sampledPart (h : Var) {span span' : Span} (hs : span'.sampledPart = span.sampledPart) :
    (w.sampledPart.newSpan h span').map World.sampledPart = (w.newSpan h span).map World.sampledPart := by
  have hnone : (w.sampledPart.spans h).isNone = (w.spans h).isNone := by simp [World.sampledPart]
  unfold World.newSpan
  rw [hnone]
  split
  · exact congrArg some (setSpan_sampledPart w h (by simp [hs]))
  · rfl

@[simp] private theorem sampledPart_idem_world : w.sampledPart.sampledPart = w.sampledPart := by
  unfold World.sampledPart
  simp only [sampledPart_idem_stack]
  congr 2
  funext h
  cases w.spans h <;> simp

private theorem map_spans (h : Var) {f f' : Span → World T}
    (hf : ∀ span, (f' span.sampledPart).sampledPart = (f span).sampledPart) :
    ((w.sampledPart.spans h).map f').map World.sampledPart = ((w.spans h).map f).map World.sampledPart := by
  change (((w.spans h).map Span.sampledPart).map f').map World.sampledPart = _
  cases w.spans h with
  | none => rfl
  | some span => exact congrArg some (hf span)

private theorem map_congr {α : Type} (o : Option α) {f f' : α → World T}
    (hf : ∀ x, (f' x).sampledPart = (f x).sampledPart) :
    (o.map f').map World.sampledPart = (o.map f).map World.sampledPart := by
  cases o with
  | none => rfl
  | some x => exact congrArg some (hf x)

private theorem bind_congr {α : Type} (o : Option α) {f f' : α → Option (World T)}
    (hf : ∀ x, (f' x).map World.sampledPart = (f x).map World.sampledPart) :
    (o.bind f').map World.sampledPart = (o.bind f).map World.sampledPart := by
  cases o with
  | none => rfl
  | some x => exact hf x

private theorem ite_congr {c : Prop} [Decidable c] {w w' : World T} (h : w'.sampledPart = w.sampledPart) :
    (if c then some w' else none).map World.sampledPart = (if c then some w else none).map World.sampledPart := by
  split
  · exact congrArg some h
  · rfl

private theorem bind_spans (h : Var) {f f' : Span → Option (World T)}
    (hf : ∀ span, (f' span.sampledPart).map World.sampledPart = (f span).map World.sampledPart) :
    ((w.sampledPart.spans h).bind f').map World.sampledPart = ((w.spans h).bind f).map World.sampledPart := by
  change (((w.spans h).map Span.sampledPart).bind f').map World.sampledPart = _
  cases w.spans h with
  | none => rfl
  | some span => exact hf span

private theorem mapM_spans (hs : List Var) :
    hs.mapM w.sampledPart.spans = (hs.mapM w.spans).map (List.map Span.sampledPart) := by
  induction hs with
  | nil => rfl
  | cons h hs ih =>
    rw [List.mapM_cons, List.mapM_cons, ih]
    change (((w.spans h).map Span.sampledPart).bind _) = _
    cases w.spans h with
    | none => rfl
    | some span => cases hs.mapM w.spans <;> rfl

private theorem send_sampledPart {w w' : World T} (t : T) {cmds cmds' : List CollectCommand} (hcmds : cmds' = cmds)
    (h : w'.sampledPart = w.sampledPart) : (w'.send t cmds').sampledPart = (w.send t cmds).sampledPart := by
  subst hcmds
  exact congrArg (fun w : World T => w.send t cmds') h

private theorem map_send {o o' : Option (World T)} (cmds : List CollectCommand) (t : T)
    (h : o'.map World.sampledPart = o.map World.sampledPart) :
    (o'.map fun w => w.send t cmds).map World.sampledPart = (o.map fun w => w.send t cmds).map World.sampledPart := by
  have hsend := congrArg (Option.map fun w : World T => w.send t cmds) h
  rw [Option.map_map, Option.map_map] at hsend ⊢
  exact hsend

private theorem guards_sampledPart {w w' : World T} {guards guards' : Var → Option (T × LocalParentGuard)}
    (hguards : guards' = guards) (h : w'.sampledPart = w.sampledPart) :
    World.sampledPart { w' with guards := guards' } = World.sampledPart { w with guards := guards } := by
  subst hguards
  exact congrArg (fun w : World T => { w with guards := guards' }) h

private theorem collectors_sampledPart {w w' : World T} {collectors collectors' : Var → Option (T × LocalCollector)}
    {collected collected' : Var → Option LocalSpansInner} (hcollectors : collectors' = collectors)
    (hcollected : collected' = collected) (h : w'.sampledPart = w.sampledPart) :
    World.sampledPart { w' with collectors := collectors', collected := collected' } =
      World.sampledPart { w with collectors := collectors, collected := collected } := by
  subst hcollectors hcollected
  exact congrArg (fun w : World T => { w with collectors := collectors', collected := collected' }) h

variable [DecidableEq T]

private theorem setStack_sampledPart (t : T) {stack stack' : LocalSpanStack}
    (hs : stack'.sampledPart = stack.sampledPart) :
    (w.sampledPart.setStack t stack').sampledPart = (w.setStack t stack).sampledPart := by
  unfold World.sampledPart World.setStack
  simp only [map_update, hs, sampledPart_idem_stack]
  congr 2
  funext h
  cases w.spans h <;> simp

/-- A step on the sampled part does to the sampled part what the step does. -/
theorem step_sampledPart (a : T × Op) :
    (w.sampledPart.step a).map World.sampledPart = (w.step a).map World.sampledPart := by
  obtain ⟨t, op⟩ := a
  cases op with
  | setReporter =>
    exact congrArg (fun w : World T => some { w with reporterReady := true }) (sampledPart_idem_world w)
  | root h name parent id now =>
    have hnew := newSpan_sampledPart { w with
      nextCollectId := (Span.root w.reporterReady w.nextCollectId name parent id now).2.1 } h
      (rfl : (Span.root w.reporterReady w.nextCollectId name parent id now).1.sampledPart = _)
    change ((World.newSpan (World.sampledPart { w with
      nextCollectId := (Span.root w.reporterReady w.nextCollectId name parent id now).2.1 }) h
      (Span.root w.reporterReady w.nextCollectId name parent id now).1).map _).map _ = _
    exact map_send _ t hnew
  | enterWithParent h name parent id now =>
    exact bind_spans w parent fun span => newSpan_sampledPart w h (enterWithParent_sampledPart span name id now)
  | enterWithParents h name parents id now =>
    simp only [World.step, mapM_spans]
    cases parents.mapM w.spans with
    | none => rfl
    | some spans =>
      exact newSpan_sampledPart w h (enterWithParents_sampledPart (by simp [Function.comp_def]) name id now)
  | enterWithLocalParent h name id now =>
    exact newSpan_sampledPart w h (enterWithStack_sampledPart name (w.spanStack t) id now)
  | withProperties h properties =>
    exact map_spans w h fun span =>
      setSpan_sampledPart w h (congrArg some (withProperties_span_sampledPart span properties))
  | addProperties h properties id now =>
    refine map_spans w h fun span => ?_
    rw [addProperties_span_sampledPart]
    exact congrArg (fun w : World T => w.send t _) (sampledPart_idem_world w)
  | addEvent h event id now =>
    refine map_spans w h fun span => ?_
    rw [addEvent_span_sampledPart]
    exact congrArg (fun w : World T => w.send t _) (sampledPart_idem_world w)
  | pushChildSpans h l =>
    refine bind_spans w h fun span => map_congr (w.collected l) fun localSpans => ?_
    rw [pushChildSpans_sampledPart]
    exact congrArg (fun w : World T => w.send t _) (sampledPart_idem_world w)
  | cancel h =>
    refine map_spans w h fun span => ?_
    rw [cancel_sampledPart]
    exact congrArg (fun w : World T => w.send t _) (sampledPart_idem_world w)
  | dropSpan h now =>
    refine map_spans w h fun span => ?_
    rw [drop_sampledPart]
    exact congrArg (fun w : World T => w.send t _) (setSpan_sampledPart w h rfl)
  | setLocalParent g h =>
    refine bind_spans w h fun span => ?_
    obtain ⟨hguard, hstack⟩ := attachIntoStack_sampledPart span (w.spanStack t)
    refine ite_congr (c := (w.guards g).isNone = true) ?_
    exact guards_sampledPart (congrArg (fun guard => Function.update w.guards g (some (t, guard))) hguard)
      (setStack_sampledPart w t hstack)
  | dropGuard g now =>
    refine map_congr (World.owned t (w.guards g)) fun guard => ?_
    have hdrop := dropGuard_sampledPart (w.spanStack t) now guard
    have hcmds := congrArg Prod.fst hdrop
    have hstack := congrArg (fun out => out.2.sampledPart) hdrop
    refine send_sampledPart t hcmds (guards_sampledPart rfl ?_)
    exact setStack_sampledPart w t (hstack.trans (sampledPart_idem_stack _))
  | startCollector k =>
    have hnone : (none : Option CollectToken).map retainSampled = none := rfl
    obtain ⟨hcollector, hstack⟩ := newCollector_sampledPart (w.spanStack t) (hnone.trans hnone.symm)
    refine ite_congr (c := (w.collectors k).isNone = true) ?_
    exact collectors_sampledPart
      (congrArg (fun collector => Function.update w.collectors k (some (t, collector))) hcollector) rfl
      (setStack_sampledPart w t hstack)
  | collect k l now =>
    refine bind_congr (World.owned t (w.collectors k)) fun collector => ?_
    have hcollect := collectSpansAndToken_sampledPart (w.spanStack t) now collector
    refine ite_congr (c := (w.collected l).isNone = true) ?_
    have hspans := congrArg (fun out => Function.update w.collected l (some out.1.1)) hcollect
    have hstack := congrArg (fun out => out.2.sampledPart) hcollect
    exact collectors_sampledPart rfl hspans (setStack_sampledPart w t (hstack.trans (sampledPart_idem_stack _)))
  | dropCollector k =>
    refine map_congr (World.owned t (w.collectors k)) fun collector => ?_
    exact collectors_sampledPart rfl rfl (setStack_sampledPart w t
      ((congrArg LocalSpanStack.sampledPart (dropCollector_sampledPart (w.spanStack t) collector)).trans
        (sampledPart_idem_stack _)))
  | enterLocal v name id now =>
    have henter := enterSpan_sampledPart (w.spanStack t) id now name
    simp only [World.step, LocalSpan.enterWithStack]
    change (((((w.spanStack t).sampledPart.enterSpan id now name).map _).bind _).map _) = _
    rw [henter]
    cases (w.spanStack t).enterSpan id now name with
    | none => rfl
    | some out =>
      refine ite_congr (c := (w.localSpans v).isNone = true) ?_
      exact congrArg (fun w' : World T => { w' with
        localSpans := Function.update w.localSpans v (some (t, ⟨some out.1⟩)) })
        (setStack_sampledPart w t (sampledPart_idem_stack out.2))
  | localWithProperties v properties =>
    refine bind_congr (World.owned t (w.localSpans v)) fun span => ?_
    change ((span.withProperties (w.spanStack t).sampledPart properties).map _).map _ = _
    rw [localWithProperties_sampledPart]
    cases span.withProperties (w.spanStack t) properties with
    | none => rfl
    | some stack => exact congrArg some (setStack_sampledPart w t (sampledPart_idem_stack stack))
  | dropLocal v now =>
    refine bind_congr (World.owned t (w.localSpans v)) fun span => ?_
    change ((span.drop (w.spanStack t).sampledPart now).map _).map _ = _
    rw [localDrop_sampledPart]
    cases span.drop (w.spanStack t) now with
    | none => rfl
    | some stack =>
      exact congrArg (fun w' : World T => some { w' with localSpans := Function.update w.localSpans v none })
        (setStack_sampledPart w t (sampledPart_idem_stack stack))
  | localAddEvent event id now =>
    exact congrArg some (setStack_sampledPart w t (by
      change ((w.spanStack t).sampledPart.addEvent id now event).sampledPart = _
      rw [addEvent_sampledPart, sampledPart_idem_stack]))
  | localAddProperties properties id =>
    exact congrArg some (setStack_sampledPart w t (by
      change ((w.spanStack t).sampledPart.addProperties id properties).sampledPart = _
      rw [addProperties_sampledPart, sampledPart_idem_stack]))

end Step

/-! ### Programs without unsampled parents -/

section Program

variable {T : Type} [DecidableEq T]

/-- Whether the span of `h` has a sampled item; a no-op has no items at all. -/
def World.keeps (w : World T) (h : Var) : Bool := (w.inner h).all fun s => s.collectToken.any (·.isSampled)

/-- Leaves the unsampled spans out of the parents. -/
def World.prune (w : World T) : T × Op → T × Op
  | (t, .enterWithParents h name parents id now) => (t, .enterWithParents h name (parents.filter w.keeps) id now)
  | a => a

/-- The program without unsampled spans in the arguments of `enter_with_parents`. -/
def pruned (w : World T) : List (T × Op) → List (T × Op)
  | [] => []
  | a :: as => w.prune a :: ((w.step a).map fun w' => pruned w' as).getD []

omit [DecidableEq T] in
private theorem retainSampled_of_not_keeps {w : World T} {h : Var} {span : Span} (hspan : w.spans h = some span)
    (hkeeps : w.keeps h = false) : retainSampled ((span.inner.map SpanInner.issueCollectToken).getD []) = [] := by
  unfold World.keeps World.inner at hkeeps
  rw [hspan, Option.bind_some] at hkeeps
  cases hs : span.inner with
  | none => rfl
  | some s =>
    rw [hs, Option.all_some] at hkeeps
    rw [Option.map_some, Option.getD_some, SpanInner.issueCollectToken, retainSampled_issue, retainSampled,
      List.filter_eq_nil_iff.2 fun item hitem => by simpa using List.any_eq_false.1 hkeeps item hitem]
    rfl

omit [DecidableEq T] in
/-- The items of unsampled parents are not sampled. -/
private theorem token_filter (w : World T) {parents : List Var} {spans : List Span}
    (h : parents.mapM w.spans = some spans) : ∃ spans', (parents.filter w.keeps).mapM w.spans = some spans' ∧
      retainSampled ((spans'.filterMap Span.inner).flatMap SpanInner.issueCollectToken) =
        retainSampled ((spans.filterMap Span.inner).flatMap SpanInner.issueCollectToken) := by
  induction parents generalizing spans with
  | nil => exact ⟨spans, h, rfl⟩
  | cons p parents ih =>
    rw [List.mapM_cons] at h
    obtain ⟨span, hspan, h⟩ := Option.bind_eq_some_iff.1 h
    obtain ⟨rest, hrest, h⟩ := Option.bind_eq_some_iff.1 h
    cases h
    obtain ⟨spans', hspans', htoken⟩ := ih hrest
    have hcons : ∀ l : List Span, ((span :: l).filterMap Span.inner).flatMap SpanInner.issueCollectToken =
        (span.inner.map SpanInner.issueCollectToken).getD [] ++
          (l.filterMap Span.inner).flatMap SpanInner.issueCollectToken := by
      intro l
      rw [List.filterMap_cons]
      cases span.inner <;> rfl
    cases hkeeps : w.keeps p with
    | true =>
      refine ⟨span :: spans', ?_, ?_⟩
      · simp [hkeeps, List.mapM_cons, hspan, hspans']
      · rw [hcons, hcons, retainSampled_append, retainSampled_append, htoken]
    | false =>
      refine ⟨spans', by simpa [List.filter_cons, hkeeps] using hspans', ?_⟩
      rw [hcons, retainSampled_append, retainSampled_of_not_keeps hspan hkeeps, htoken]
      rfl

omit [DecidableEq T] in
private theorem newSpan_congr (w : World T) (h : Var) {span span' : Span}
    (hs : span'.sampledPart = span.sampledPart) :
    (w.newSpan h span').map World.sampledPart = (w.newSpan h span).map World.sampledPart :=
  (newSpan_sampledPart w h rfl).symm.trans (newSpan_sampledPart w h hs)

/-- A call without its unsampled parents does the same to the sampled part. -/
private theorem step_prune {w w' : World T} {a : T × Op} (h : w.step a = some w') :
    (w.step (w.prune a)).map World.sampledPart = some w'.sampledPart := by
  obtain ⟨t, op⟩ := a
  cases op with
  | enterWithParents h' name parents id now =>
    obtain ⟨spans, hspans, h⟩ := Option.bind_eq_some_iff.1 h
    obtain ⟨spans', hspans', htoken⟩ := token_filter w hspans
    have hnew := newSpan_congr w h' (new_span_sampledPart htoken name none id now)
    change (((parents.filter w.keeps).mapM w.spans).bind _).map _ = _
    rw [hspans', Option.bind_some]
    refine hnew.trans ?_
    change (w.newSpan h' (Span.enterWithParents name spans id now)).map World.sampledPart = _
    rw [h, Option.map_some]
  | _ => exact congrArg (Option.map World.sampledPart) h

private theorem step_congr {w w' : World T} (h : w'.sampledPart = w.sampledPart) (a : T × Op) :
    (w'.step a).map World.sampledPart = (w.step a).map World.sampledPart := by
  rw [← step_sampledPart w', h, step_sampledPart]

/-- The two runs agree on the sampled part after every call. -/
private theorem run_pruned {as : List (T × Op)} {w₁ w₂ w : World T} (hsame : w₂.sampledPart = w₁.sampledPart)
    (h : Steps.run World.step w₁ as = some w) :
    ∃ w', Steps.run World.step w₂ (pruned w₁ as) = some w' ∧ w'.sampledPart = w.sampledPart := by
  induction as generalizing w₁ w₂ with
  | nil => cases h; exact ⟨w₂, rfl, hsame⟩
  | cons a as ih =>
    obtain ⟨w₁', hw₁, h⟩ := Option.bind_eq_some_iff.1 h
    have hw₂ := (step_congr hsame (w₁.prune a)).trans (step_prune hw₁)
    obtain ⟨w₂', hw₂, hsame'⟩ := Option.map_eq_some_iff.1 hw₂
    obtain ⟨w', hw', hfinal⟩ := ih hsame' h
    refine ⟨w', ?_, hfinal⟩
    rw [pruned, hw₁, Option.map_some, Option.getD_some, Steps.run, hw₂, Option.bind_some, hw']

end Program

/-! ### The records -/

section Records

variable {T : Type} [DecidableEq T]

/-- The record is one of a submitted item of a sampled root. -/
def OfSampledRoot (as : List (T × Op)) (w : World T) (c : CollectId) (r : SpanRecord) : Prop :=
  ∃ cmd ∈ w.submitted, ∃ item ∈ cmd.collectToken, item.collectId = c ∧ r.key ∈ (itemOf cmd.spans item).keys ∧
    item.isSampled = true ∧
    ∃ parent id, RootCall as parent id c ∧ parent.sampled = true ∧ r.traceId = parent.traceId

private theorem mem_reported {cancelable : Bool} {rounds : List Round} {c : CollectId} {r : SpanRecord}
    (h : (c, r) ∈ (attributedRun cancelable HashMap.empty rounds).flatten) :
    ∃ cmd ∈ submitSpans (received rounds), ∃ item ∈ cmd.collectToken, item.collectId = c ∧
      r.key ∈ (itemOf cmd.spans item).keys := by
  have hr : r ∈ ownedBy c (attributedRun cancelable HashMap.empty rounds).flatten :=
    List.mem_map.2 ⟨(c, r), List.mem_filter.2 ⟨h, by simp⟩, rfl⟩
  rw [attributedRun_flatten] at hr
  have hkey := (reportedFor_keys cancelable c rounds).subset (List.mem_map_of_mem (f := SpanRecord.key) hr)
  rw [itemsFor_eq] at hkey
  obtain ⟨i, hi, hkey⟩ := List.mem_flatMap.1 hkey
  obtain ⟨cmd, hcmd, hi⟩ := List.mem_flatMap.1 hi
  obtain ⟨item, hitem, rfl⟩ := List.mem_map.1 hi
  obtain ⟨hitem, hc⟩ := List.mem_filter.1 hitem
  exact ⟨cmd, hcmd, item, hitem, by simpa using hc, hkey⟩

/-- Every record is one of a sampled root, and leaving the unsampled spans out of the arguments of
`enter_with_parents` changes neither a command nor a record. -/
theorem sampling_noninterference {as : List (T × Op)} {w : World T}
    (hrun : Steps.run World.step World.init as = some w) :
    (∀ (cancelable : Bool) (rounds : List Round), (received rounds).Subperm w.commands →
      ∀ c r, (c, r) ∈ (attributedRun cancelable HashMap.empty rounds).flatten → OfSampledRoot as w c r) ∧
    ∃ w', Steps.run World.step World.init (pruned World.init as) = some w' ∧ w'.sent = w.sent ∧
      ∀ (deliver : List (T × CollectCommand) → List Round) (cancelable : Bool),
        attributedRun cancelable HashMap.empty (deliver w'.sent) =
          attributedRun cancelable HashMap.empty (deliver w.sent) := by
  constructor
  · intro cancelable rounds hreceived c r hr
    obtain ⟨cmd, hcmd, item, hitem, rfl, hkey⟩ := mem_reported hr
    have hsubmitted : cmd ∈ w.submitted := (subperm_submitSpans hreceived).subset hcmd
    obtain ⟨⟨parent, id, hcall, htrace, hsampled⟩, hitemSampled⟩ :=
      (rooted_of_run hrun).submitted cmd hsubmitted item hitem
    exact ⟨cmd, hsubmitted, item, hitem, rfl, hkey, hitemSampled, parent, id, hcall,
      hsampled.symm.trans hitemSampled, (mem_itemKeys hkey).1.trans htrace⟩
  · obtain ⟨w', hw', hsame⟩ := run_pruned rfl hrun
    have hsent : w'.sampledPart.sent = w.sampledPart.sent := by rw [hsame]
    change w'.sent = w.sent at hsent
    exact ⟨w', hw', hsent, fun deliver cancelable => by rw [hsent]⟩

end Records

/-- A sampled root and an unsampled one have a child in common, which is the local parent of a local span. -/
def mixedProgram (parents : List Var) : List (Unit × Op) := [
  ((), .setReporter),
  ((), .root 0 "sampled" ⟨⟨1⟩, ⟨9⟩, true⟩ ⟨1⟩ ⟨10⟩),
  ((), .root 1 "unsampled" ⟨⟨2⟩, ⟨9⟩, false⟩ ⟨2⟩ ⟨11⟩),
  ((), .enterWithParents 2 "child" parents ⟨3⟩ ⟨12⟩),
  ((), .setLocalParent 3 2),
  ((), .enterLocal 4 "local" ⟨4⟩ ⟨13⟩),
  ((), .dropLocal 4 ⟨14⟩),
  ((), .dropGuard 3 ⟨15⟩),
  ((), .dropSpan 2 ⟨16⟩),
  ((), .dropSpan 1 ⟨17⟩),
  ((), .dropSpan 0 ⟨18⟩)]

theorem sampling_noninterference_mixed :
    pruned World.init (mixedProgram [1, 0]) = mixedProgram [0] ∧
      ∃ w, Steps.run World.step World.init (mixedProgram [0]) = some w ∧
        w.sent = (afterProgram (mixedProgram [1, 0])).sent := by
  have hrun : Steps.run World.step World.init (mixedProgram [1, 0]) = some (afterProgram (mixedProgram [1, 0])) := rfl
  obtain ⟨w, hw, hsent, -⟩ := (sampling_noninterference hrun).2
  exact ⟨rfl, w, hw, hsent⟩

end Fastrace
