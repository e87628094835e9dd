import Fastrace.Blocks
import Fastrace.Futures
import Fastrace.Interleavings
import Fastrace.TraceTrees

/-!
# Programs of instrumented futures

An executor polls a future now on one thread and now on another.  What a thread does is made of polls inside of polls
(`Work`): a poll of an `InSpan` opens a scope and closes it, a poll of an `EnterOnPoll` enters a local span and drops
it.  These calls are the polls of the adapters, whatever the other threads do in between (`inSpan_polled`,
`enterOnPoll_polled`).  So scopes are closed in order on every thread (`lifo_of_work`), and what has been said of such
programs holds of instrumented futures (`futures_reach`).
-/

namespace Fastrace

/-- `EnterOnPoll::poll`: the local span is entered before the poll of the wrapped future and dropped after it. -/
def EnterOnPoll.poll {ρ : Type} (name : String) (stack : LocalSpanStack) (inner : Inner ρ) (id : SpanId)
    (begin later : Instant) : Option (Polled ρ) :=
  (LocalSpan.enterWithStack name stack id begin).bind fun entered =>
    let res := inner entered.2
    (entered.1.drop res.stack later).map fun stack => ⟨res.result, stack, res.sent⟩

/-! ### The work of a thread -/

/-- A call that neither opens nor closes a scope. -/
abbrev ScopelessOp := { op : Op // op.opens = none ∧ op.closes = none }

/-- What a thread does, poll inside of poll. -/
inductive Work where
  | done
  | call (op : ScopelessOp) (rest : Work)
  /-- A poll of an `InSpan` whose span is in `h`; a poll that finishes drops the span, before the guard `g`. -/
  | inSpan (g h : Var) (body : Work) (finished : Option Instant) (now : Instant) (rest : Work)
  /-- A poll of an `EnterOnPoll`. -/
  | enterOnPoll (v : Var) (name : String) (id : SpanId) (begin : Instant) (body : Work) (later : Instant)
      (rest : Work)
  /-- Between `LocalCollector::start` and `collect`. -/
  | collector (k l : Var) (body : Work) (now : Instant) (rest : Work)

namespace Work

def ops : Work → List Op
  | .done => []
  | .call op rest => op.1 :: ops rest
  | .inSpan g h body finished now rest =>
    .setLocalParent g h :: (ops body ++ (finished.toList.map (Op.dropSpan h) ++ .dropGuard g now :: ops rest))
  | .enterOnPoll v name id begin body later rest =>
    .enterLocal v name id begin :: (ops body ++ .dropLocal v later :: ops rest)
  | .collector k l body now rest => .startCollector k :: (ops body ++ .collect k l now :: ops rest)

end Work

/-! ### Scopes, thread by thread -/

/-- A call that closes a scope closes the innermost one. -/
def ClosesInnermost (scopes : List Scope) (op : Op) : Prop := op.closes.isSome → op.closes = scopes.head?

open Interleavings in
private theorem lifo_iff_threads {T : Type} [DecidableEq T] {scopes : T → List Scope} {as : List (T × Op)} :
    Lifo scopes as ↔ ∀ t, Along scopesAfter ClosesInnermost (scopes t) (actionsOf t as) := by
  rw [← along_iff_threads]
  induction as generalizing scopes with
  | nil => exact Iff.rfl
  | cons a as ih => exact and_congr_right fun _ => ih

private theorem scopesAfter_scopeless {op : Op} (h : op.opens = none ∧ op.closes = none) (scopes : List Scope) :
    scopesAfter scopes op = scopes := by
  simp [scopesAfter, h]

private theorem closesInnermost_of_none {op : Op} (h : op.closes = none) (scopes : List Scope) :
    ClosesInnermost scopes op := by
  simp [ClosesInnermost, h]

open Interleavings in
/-- A thread that works closes its scopes in order, and in the end those it has opened. -/
private theorem Work.along_ops (work : Work) (scopes : List Scope) :
    Along scopesAfter ClosesInnermost scopes work.ops ∧ work.ops.foldl scopesAfter scopes = scopes := by
  induction work generalizing scopes with
  | done => exact ⟨trivial, rfl⟩
  | call op rest ih =>
    rw [ops, Along, List.foldl_cons, scopesAfter_scopeless op.2]
    exact ⟨⟨closesInnermost_of_none op.2.2 scopes, (ih scopes).1⟩, (ih scopes).2⟩
  | inSpan g h body finished now rest ihBody ihRest =>
    obtain ⟨hbody, hopen⟩ := ihBody (.guard g :: scopes)
    obtain ⟨hrest, hclosed⟩ := ihRest scopes
    have hdrop : Along scopesAfter ClosesInnermost (.guard g :: scopes) (finished.toList.map (Op.dropSpan h)) ∧
        (finished.toList.map (Op.dropSpan h)).foldl scopesAfter (.guard g :: scopes) = .guard g :: scopes := by
      cases finished with
      | none => exact ⟨trivial, rfl⟩
      | some later => exact ⟨⟨closesInnermost_of_none rfl _, trivial⟩, rfl⟩
    have hopened : scopesAfter scopes (.setLocalParent g h) = .guard g :: scopes := rfl
    have hafter : scopesAfter (.guard g :: scopes) (.dropGuard g now) = scopes := rfl
    constructor
    · rw [ops, Along, along_append, along_append, Along, hopened, hopen, hdrop.2, hafter]
      exact ⟨closesInnermost_of_none rfl scopes, hbody, hdrop.1, fun _ => rfl, hrest⟩
    · rw [ops, List.foldl_cons, List.foldl_append, List.foldl_append, List.foldl_cons, hopened, hopen, hdrop.2, hafter,
        hclosed]
  | enterOnPoll v name id begin body later rest ihBody ihRest =>
    obtain ⟨hbody, hopen⟩ := ihBody scopes
    obtain ⟨hrest, hclosed⟩ := ihRest scopes
    have hentered : scopesAfter scopes (.enterLocal v name id begin) = scopes := rfl
    have hdropped : scopesAfter scopes (.dropLocal v later) = scopes := rfl
    constructor
    · rw [ops, Along, along_append, Along, hentered, hopen, hdropped]
      exact ⟨closesInnermost_of_none rfl scopes, hbody, closesInnermost_of_none rfl scopes, hrest⟩
    · rw [ops, List.foldl_cons, List.foldl_append, List.foldl_cons, hentered, hopen, hdropped, hclosed]
  | collector k l body now rest ihBody ihRest =>
    obtain ⟨hbody, hopen⟩ := ihBody (.collector k :: scopes)
    obtain ⟨hrest, hclosed⟩ := ihRest scopes
    have hopened : scopesAfter scopes (.startCollector k) = .collector k :: scopes := rfl
    have hafter : scopesAfter (.collector k :: scopes) (.collect k l now) = scopes := rfl
    constructor
    · rw [ops, Along, along_append, Along, hopened, hopen, hafter]
      exact ⟨closesInnermost_of_none rfl scopes, hbody, fun _ => rfl, hrest⟩
    · rw [ops, List.foldl_cons, List.foldl_append, List.foldl_cons, hopened, hopen, hafter, hclosed]

/-- Every thread has done its work, in whatever order the calls of the threads came. -/
def Works {T : Type} [DecidableEq T] (as : List (T × Op)) : Prop :=
  ∀ t, ∃ work : Work, Interleavings.actionsOf t as = work.ops

theorem lifo_of_work {T : Type} [DecidableEq T] {as : List (T × Op)} (h : Works as) :
    Lifo (fun _ => []) as ∧ ∀ t, scopesRun (fun _ => []) as t = [] := by
  refine ⟨lifo_iff_threads.2 fun t => ?_, fun t => ?_⟩
  · obtain ⟨work, hwork⟩ := h t
    rw [hwork]
    exact (work.along_ops []).1
  · obtain ⟨work, hwork⟩ := h t
    rw [show scopesRun (fun _ => []) as t = Interleavings.run scopesAfter (fun _ => []) as t from rfl,
      Interleavings.run_apply, hwork]
    exact (work.along_ops []).2

/-! ### Polls -/

/-- The span variable that a call fills, changes or empties. -/
def Op.spanVar : Op → Option Var
  | .root h _ _ _ _ => some h
  | .enterWithParent h _ _ _ _ => some h
  | .enterWithParents h _ _ _ _ => some h
  | .enterWithLocalParent h _ _ _ => some h
  | .withProperties h _ => some h
  | .dropSpan h _ => some h
  | _ => none

/-- The variable of the local span that a call enters or drops. -/
def Op.localVar : Op → Option Var
  | .enterLocal v _ _ _ => some v
  | .dropLocal v _ => some v
  | _ => none

section Polls

variable {T : Type} [DecidableEq T] {w w' : World T} {t : T}

/-- What a call leaves alone. -/
structure Frames (w : World T) (t : T) (op : Op) (w' : World T) : Prop where
  spans : ∀ h, op.spanVar ≠ some h → w'.spans h = w.spans h
  locals : ∀ v, op.localVar ≠ some v → w'.localSpans v = w.localSpans v
  guards : ∀ g, op.opens ≠ some (.guard g) → op.closes ≠ some (.guard g) → w'.guards g = w.guards g
  spanStack : ∀ u, u ≠ t → w'.spanStack u = w.spanStack u
  sent : ∃ cmds : List CollectCommand, w'.sent = w.sent ++ cmds.map fun cmd => (t, cmd)

omit [DecidableEq T] in
theorem Frames.send {op : Op} {w₁ : World T} (h : Frames w t op w₁) (hsent : w₁.sent = w.sent)
    (cmds : List CollectCommand) : Frames w t op (w₁.send t cmds) :=
  ⟨h.spans, h.locals, h.guards, h.spanStack, cmds, by rw [World.send, hsent]⟩

omit [DecidableEq T] in
private theorem Frames.refl {op : Op} : Frames w t op w :=
  ⟨fun _ _ => rfl, fun _ _ => rfl, fun _ _ _ => rfl, fun _ _ => rfl, [], by simp⟩

omit [DecidableEq T] in
/-- A call that sets its span variable. -/
private theorem frames_setSpan {h : Var} {op : Op} (hop : op.spanVar = some h) (span : Option Span) :
    Frames w t op (w.setSpan h span) where
  spans h' hne := Function.update_of_ne (fun heq => hne (by rw [hop, heq])) ..
  locals _ _ := rfl
  guards _ _ _ := rfl
  spanStack _ _ := rfl
  sent := ⟨[], by simp [World.setSpan]⟩

/-- A call that changes the stack of its thread. -/
private theorem Frames.setStack {op : Op} (stack : LocalSpanStack) : Frames w t op (w.setStack t stack) where
  spans _ _ := rfl
  locals _ _ := rfl
  guards _ _ _ := rfl
  spanStack _ hne := Function.update_of_ne hne ..
  sent := ⟨[], by simp [World.setStack]⟩

theorem step_frames {op : Op} (hw : w.step (t, op) = some w') : Frames w t op w' := by
  cases op with
  | setReporter => cases hw; exact { Frames.refl with }
  | root h name parent id now =>
    obtain ⟨w₁, hw₁, rfl⟩ := Option.map_eq_some_iff.1 hw
    obtain ⟨-, rfl⟩ := newSpan_eq_some hw₁
    have hspan : Frames w t (.root h name parent id now)
        (w.setSpan h (some (Span.root w.reporterReady w.nextCollectId name parent id now).1)) :=
      frames_setSpan rfl _
    exact { hspan.send rfl _ with }
  | enterWithParent h name parent id now =>
    obtain ⟨span, -, hw⟩ := Option.bind_eq_some_iff.1 hw
    obtain ⟨-, rfl⟩ := newSpan_eq_some hw
    exact frames_setSpan rfl _
  | enterWithParents h name parents id now =>
    obtain ⟨spans, -, hw⟩ := Option.bind_eq_some_iff.1 hw
    obtain ⟨-, rfl⟩ := newSpan_eq_some hw
    exact frames_setSpan rfl _
  | enterWithLocalParent h name id now =>
    obtain ⟨-, rfl⟩ := newSpan_eq_some hw
    exact frames_setSpan rfl _
  | withProperties h properties =>
    obtain ⟨span, -, rfl⟩ := Option.map_eq_some_iff.1 hw
    exact frames_setSpan rfl _
  | addProperties h properties id now =>
    obtain ⟨span, -, rfl⟩ := Option.map_eq_some_iff.1 hw
    exact Frames.refl.send rfl _
  | addEvent h event id now =>
    obtain ⟨span, -, rfl⟩ := Option.map_eq_some_iff.1 hw
    exact Frames.refl.send rfl _
  | pushChildSpans h l =>
    obtain ⟨span, -, hw⟩ := Option.bind_eq_some_iff.1 hw
    obtain ⟨localSpans, -, rfl⟩ := Option.map_eq_some_iff.1 hw
    exact Frames.refl.send rfl _
  | cancel h =>
    obtain ⟨span, -, rfl⟩ := Option.map_eq_some_iff.1 hw
    exact Frames.refl.send rfl _
  | dropSpan h now =>
    obtain ⟨span, -, rfl⟩ := Option.map_eq_some_iff.1 hw
    exact (frames_setSpan rfl none).send rfl _
  | setLocalParent g h =>
    obtain ⟨span, -, hw⟩ := Option.bind_eq_some_iff.1 hw
    simp only at hw
    split at hw
    · cases hw
      exact { Frames.setStack (w := w) (span.attachIntoStack (w.spanStack t)).2 with
        guards := fun g' hopens _ => Function.update_of_ne (fun heq => hopens (by rw [heq]; rfl)) .. }
    · cases hw
  | dropGuard g now =>
    obtain ⟨guard, -, rfl⟩ := Option.map_eq_some_iff.1 hw
    have hguard : Frames w t (.dropGuard g now) { w.setStack t (guard.drop (w.spanStack t) now).2 with
        guards := Function.update w.guards g none } := {
      Frames.setStack (w := w) (guard.drop (w.spanStack t) now).2 with
      guards := fun g' _ hcloses => Function.update_of_ne (fun heq => hcloses (by rw [heq]; rfl)) .. }
    exact hguard.send rfl _
  | startCollector k =>
    simp only [World.step] at hw
    split at hw
    · cases hw; exact { Frames.setStack (w := w) (LocalCollector.start (w.spanStack t)).2 with }
    · cases hw
  | collect k l now =>
    obtain ⟨collector, -, hw⟩ := Option.bind_eq_some_iff.1 hw
    simp only at hw
    split at hw
    · cases hw; exact { Frames.setStack (w := w) (collector.collect (w.spanStack t) now).2 with }
    · cases hw
  | dropCollector k =>
    obtain ⟨collector, -, rfl⟩ := Option.map_eq_some_iff.1 hw
    exact { Frames.setStack (w := w) (collector.drop (w.spanStack t)) with }
  | enterLocal v name id now =>
    obtain ⟨out, -, hw⟩ := Option.bind_eq_some_iff.1 hw
    split at hw
    · cases hw
      exact { Frames.setStack (w := w) out.2 with
        locals := fun v' hne => Function.update_of_ne (fun heq => hne (by rw [heq]; rfl)) .. }
    · cases hw
  | localWithProperties v properties =>
    obtain ⟨span, -, hw⟩ := Option.bind_eq_some_iff.1 hw
    obtain ⟨stack, -, rfl⟩ := Option.map_eq_some_iff.1 hw
    exact Frames.setStack stack
  | dropLocal v now =>
    obtain ⟨span, -, hw⟩ := Option.bind_eq_some_iff.1 hw
    obtain ⟨stack, -, rfl⟩ := Option.map_eq_some_iff.1 hw
    exact { Frames.setStack (w := w) stack with
      locals := fun v' hne => Function.update_of_ne (fun heq => hne (by rw [heq]; rfl)) .. }
  | localAddEvent event id now => cases hw; exact Frames.setStack _
  | localAddProperties properties id => cases hw; exact Frames.setStack _

private theorem guard_free {g h : Var} (hw : w.step (t, .setLocalParent g h) = some w') : w.guards g = none := by
  obtain ⟨span, -, hw⟩ := Option.bind_eq_some_iff.1 hw
  simp only at hw
  split at hw
  · rename_i hfree
    exact Option.isNone_iff_eq_none.1 hfree
  · cases hw

private theorem local_free {v : Var} {name : String} {id : SpanId} {now : Instant}
    (hw : w.step (t, .enterLocal v name id now) = some w') : w.localSpans v = none := by
  obtain ⟨out, -, hw⟩ := Option.bind_eq_some_iff.1 hw
  split at hw
  · rename_i hfree
    exact Option.isNone_iff_eq_none.1 hfree
  · cases hw

private theorem owned_ne {α : Type} {u : T} (hne : u ≠ t) {value : Option (T × α)} {a : α} (h : value = some (t, a)) :
    World.owned u value = none := by
  rw [h]
  exact if_neg hne.symm

/-- The commands that a thread has sent. -/
def World.sentOf (w : World T) (t : T) : List CollectCommand := Interleavings.actionsOf t w.sent

private theorem sentOf_append {cmds : List CollectCommand} (h : w'.sent = w.sent ++ cmds.map fun cmd => (t, cmd)) :
    w'.sentOf t = w.sentOf t ++ cmds := by
  rw [World.sentOf, h, Interleavings.actionsOf_append, Interleavings.actionsOf_map_self]
  rfl

/-- What is left of the thread `t`: its stack, its guards and local spans, and what it has sent. -/
structure Kept (w : World T) (t : T) (w' : World T) : Prop where
  spanStack : w'.spanStack t = w.spanStack t
  guards : ∀ {g guard}, w.guards g = some (t, guard) → w'.guards g = some (t, guard)
  locals : ∀ {v span}, w.localSpans v = some (t, span) → w'.localSpans v = some (t, span)
  sentOf : w'.sentOf t = w.sentOf t

private theorem Kept.trans {w'' : World T} (h : Kept w t w') (h' : Kept w' t w'') : Kept w t w'' :=
  ⟨h'.spanStack.trans h.spanStack, fun hg => h'.guards (h.guards hg), fun hv => h'.locals (h.locals hv),
    h'.sentOf.trans h.sentOf⟩

/-- A call of another thread. -/
private theorem step_other {u : T} {op : Op} (hne : u ≠ t) (hw : w.step (u, op) = some w') : Kept w t w' := by
  have hframes := step_frames hw
  refine ⟨hframes.spanStack t hne.symm, fun {g guard} hg => ?_, fun {v span} hv => ?_, ?_⟩
  · -- `g` is neither free nor the thread's own
    rw [← hg]
    refine hframes.guards g (fun hopens => ?_) (fun hcloses => ?_)
    · cases op <;> simp only [Op.opens, reduceCtorEq, Option.some.injEq, Scope.guard.injEq] at hopens
      subst hopens
      rw [guard_free hw] at hg
      cases hg
    · cases op <;> simp only [Op.closes, reduceCtorEq, Option.some.injEq, Scope.guard.injEq] at hcloses
      subst hcloses
      obtain ⟨guard', howned, -⟩ := Option.map_eq_some_iff.1 hw
      rw [owned_ne hne hg] at howned
      cases howned
  · rw [← hv]
    refine hframes.locals v fun hvar => ?_
    cases op <;> simp only [Op.localVar, reduceCtorEq, Option.some.injEq] at hvar <;> subst hvar
    · rw [local_free hw] at hv
      cases hv
    · obtain ⟨span', howned, -⟩ := Option.bind_eq_some_iff.1 hw
      rw [owned_ne hne hv] at howned
      cases howned
  · obtain ⟨cmds, hsent⟩ := hframes.sent
    rw [World.sentOf, hsent, Interleavings.actionsOf_append, Interleavings.actionsOf_map_ne hne, List.append_nil]
    rfl

open Interleavings

variable {as : List (T × Op)}

/-- Calls of other threads. -/
private theorem run_others (hidle : actionsOf t as = []) (hrun : Steps.run World.step w as = some w') :
    Kept w t w' := by
  induction as generalizing w with
  | nil => cases hrun; exact ⟨rfl, id, id, rfl⟩
  | cons a as ih =>
    obtain ⟨w₁, hw₁, hrun⟩ := Option.bind_eq_some_iff.1 hrun
    rw [actionsOf_cons] at hidle
    split at hidle
    · cases hidle
    · next hne => exact (step_other hne hw₁).trans (ih hidle hrun)

/-- The first call of a thread in an interleaving. -/
private theorem run_first {op : Op} {ops : List Op} (hops : actionsOf t as = op :: ops)
    (hrun : Steps.run World.step w as = some w') :
    ∃ before after w₀ w₁, as = before ++ (t, op) :: after ∧ actionsOf t before = [] ∧ actionsOf t after = ops ∧
      Steps.run World.step w before = some w₀ ∧ w₀.step (t, op) = some w₁ ∧
        Steps.run World.step w₁ after = some w' := by
  obtain ⟨before, after, rfl, hidle, hafter⟩ := actionsOf_eq_cons hops
  rw [Steps.run_append] at hrun
  obtain ⟨w₀, hbefore, hrun⟩ := Option.bind_eq_some_iff.1 hrun
  obtain ⟨w₁, hw₁, hrun⟩ := Option.bind_eq_some_iff.1 hrun
  exact ⟨before, after, w₀, w₁, rfl, hidle, hafter, hbefore, hw₁, hrun⟩

private theorem run_split {ops ops' : List Op} (hops : actionsOf t as = ops ++ ops')
    (hrun : Steps.run World.step w as = some w') :
    ∃ as₁ as₂ w₁, as = as₁ ++ as₂ ∧ actionsOf t as₁ = ops ∧ actionsOf t as₂ = ops' ∧
      Steps.run World.step w as₁ = some w₁ ∧ Steps.run World.step w₁ as₂ = some w' := by
  obtain ⟨as₁, as₂, rfl, h₁, h₂⟩ := actionsOf_eq_append hops
  rw [Steps.run_append] at hrun
  obtain ⟨w₁, hrun₁, hrun₂⟩ := Option.bind_eq_some_iff.1 hrun
  exact ⟨as₁, as₂, w₁, rfl, h₁, h₂, hrun₁, hrun₂⟩

/-- A span that no call is on. -/
private theorem run_span {h : Var} (hown : ∀ op ∈ actionsOf t as, op.spanVar ≠ some h)
    (hothers : ∀ a ∈ as, a.1 ≠ t → a.2.spanVar ≠ some h) (hrun : Steps.run World.step w as = some w') :
    w'.spans h = w.spans h := by
  have hfree : ∀ a ∈ as, a.2.spanVar ≠ some h := by
    intro a ha
    by_cases hthread : a.1 = t
    · exact hown a.2 (mem_actionsOf.2 (hthread ▸ ha))
    · exact hothers a ha hthread
  clear hown hothers
  induction as generalizing w with
  | nil => cases hrun; rfl
  | cons a as ih =>
    obtain ⟨w₁, hw₁, hrun⟩ := Option.bind_eq_some_iff.1 hrun
    rw [List.forall_mem_cons] at hfree
    rw [ih hrun hfree.2, (step_frames hw₁).spans h hfree.1]

private theorem run_others_span {h : Var} (hidle : actionsOf t as = [])
    (hothers : ∀ a ∈ as, a.1 ≠ t → a.2.spanVar ≠ some h) (hrun : Steps.run World.step w as = some w') :
    w'.spans h = w.spans h :=
  run_span (by simp [hidle]) hothers hrun

/-- A local span that its thread does not drop. -/
private theorem run_local {v : Var} {span : LocalSpan} (hfree : ∀ op ∈ actionsOf t as, op.localVar ≠ some v)
    (hrun : Steps.run World.step w as = some w') (hv : w.localSpans v = some (t, span)) :
    w'.localSpans v = some (t, span) := by
  induction as generalizing w with
  | nil => cases hrun; exact hv
  | cons a as ih =>
    obtain ⟨w₁, hw₁, hrun⟩ := Option.bind_eq_some_iff.1 hrun
    rw [actionsOf_cons] at hfree
    split at hfree
    · rename_i hthread
      rw [List.forall_mem_cons] at hfree
      exact ih hfree.2 hrun (((step_frames hw₁).locals v hfree.1).trans hv)
    · rename_i hne
      exact ih hfree hrun ((step_other hne hw₁).locals hv)

private theorem run_sent (hrun : Steps.run World.step w as = some w') (t : T) :
    ∃ cmds, w'.sentOf t = w.sentOf t ++ cmds := by
  induction as generalizing w with
  | nil => cases hrun; exact ⟨[], by simp⟩
  | cons a as ih =>
    obtain ⟨w₁, hw₁, hrun⟩ := Option.bind_eq_some_iff.1 hrun
    obtain ⟨cmds, hcmds⟩ := ih hrun
    by_cases hthread : a.1 = t
    · obtain ⟨cmds₁, hsent⟩ := (step_frames hw₁).sent
      rw [hthread] at hsent
      exact ⟨cmds₁ ++ cmds, by rw [hcmds, sentOf_append hsent, List.append_assoc]⟩
    · exact ⟨cmds, by rw [hcmds, (step_other hthread hw₁).sentOf]⟩

/-- Work drops no guards but those it makes. -/
private theorem work_guards {work : Work} (hwork : actionsOf t as = work.ops)
    (hrun : Steps.run World.step w as = some w')
    {g : Var} {guard : LocalParentGuard} (hg : w.guards g = some (t, guard)) : w'.guards g = some (t, guard) := by
  have hstep : ∀ {w w' : World T} {op : Op}, w.step (t, op) = some w' → w.guards g = some (t, guard) →
      op.opens ≠ some (.guard g) → op.closes ≠ some (.guard g) → w'.guards g = some (t, guard) :=
    fun hw hg hopens hcloses => ((step_frames hw).guards g hopens hcloses).trans hg
  induction work generalizing w w' as with
  | done => exact (run_others hwork hrun).guards hg
  | call op rest ih =>
    obtain ⟨_, after, w₀, w₁, rfl, hidle, hafter, hbefore, hw₁, hrun⟩ := run_first hwork hrun
    exact ih hafter hrun (hstep hw₁ ((run_others hidle hbefore).guards hg) (by simp [op.2]) (by simp [op.2]))
  | inSpan g' h body finished now rest ihBody ihRest =>
    obtain ⟨_, as₁, w₀, w₁, rfl, hidle, hwork, hbefore, hopen, hrun⟩ := run_first hwork hrun
    have h₀ := (run_others hidle hbefore).guards hg
    have hne : some (Scope.guard g') ≠ some (Scope.guard g) := by
      intro heq
      cases heq
      rw [guard_free hopen] at h₀
      cases h₀
    obtain ⟨asBody, as₂, w₂, rfl, hbody, hwork, hrunBody, hrun⟩ := run_split hwork hrun
    have h₂ := ihBody hbody hrunBody (hstep hopen h₀ hne (by simp [Op.closes]))
    obtain ⟨asDrop, as₃, w₃, rfl, hdrop, hwork, hrunDrop, hrun⟩ := run_split hwork hrun
    have h₃ : w₃.guards g = some (t, guard) := by
      cases finished with
      | none => exact (run_others hdrop hrunDrop).guards h₂
      | some later =>
        obtain ⟨_, _, w₄, w₅, rfl, hidle, hend, hbefore, hw₅, hrun⟩ := run_first hdrop hrunDrop
        exact (run_others hend hrun).guards
          (hstep hw₅ ((run_others hidle hbefore).guards h₂) (by simp [Op.opens]) (by simp [Op.closes]))
    obtain ⟨_, as₄, w₄, w₅, rfl, hidle, hwork, hbefore, hclose, hrun⟩ := run_first hwork hrun
    exact ihRest hwork hrun (hstep hclose ((run_others hidle hbefore).guards h₃) (by simp [Op.opens]) hne)
  | enterOnPoll v name id begin body later rest ihBody ihRest =>
    obtain ⟨_, as₁, w₀, w₁, rfl, hidle, hwork, hbefore, henter, hrun⟩ := run_first hwork hrun
    have h₁ := hstep henter ((run_others hidle hbefore).guards hg) (by simp [Op.opens]) (by simp [Op.closes])
    obtain ⟨asBody, as₂, w₂, rfl, hbody, hwork, hrunBody, hrun⟩ := run_split hwork hrun
    obtain ⟨_, as₃, w₃, w₄, rfl, hidle, hwork, hbefore, hdrop, hrun⟩ := run_first hwork hrun
    exact ihRest hwork hrun (hstep hdrop ((run_others hidle hbefore).guards (ihBody hbody hrunBody h₁))
      (by simp [Op.opens]) (by simp [Op.closes]))
  | collector k l body now rest ihBody ihRest =>
    obtain ⟨_, as₁, w₀, w₁, rfl, hidle, hwork, hbefore, hstart, hrun⟩ := run_first hwork hrun
    have h₁ := hstep hstart ((run_others hidle hbefore).guards hg) (by simp [Op.opens]) (by simp [Op.closes])
    obtain ⟨asBody, as₂, w₂, rfl, hbody, hwork, hrunBody, hrun⟩ := run_split hwork hrun
    obtain ⟨_, as₃, w₃, w₄, rfl, hidle, hwork, hbefore, hcollect, hrun⟩ := run_first hwork hrun
    exact ihRest hwork hrun (hstep hcollect ((run_others hidle hbefore).guards (ihBody hbody hrunBody h₁))
      (by simp [Op.opens]) (by simp [Op.closes]))

/-- The poll of a wrapped value by `t` that takes place between two worlds. -/
def polledBetween (w w' : World T) (t : T) (finished : Bool) : Inner Bool := fun _ =>
  ⟨finished, w'.spanStack t, (w'.sentOf t).drop (w.sentOf t).length⟩

/-- The calls `poll` are the poll of an adapter by `t`: those of the wrapped value are in the middle, and `P` holds of
the worlds between which the wrapped value is polled and of the last one. -/
def PolledAs (P : World T → World T → World T → Prop) (w : World T) (poll : List (T × Op)) (t : T) (body : Work) :
    Prop :=
  ∃ opening wrapped closing w₁ w₂ w', poll = opening ++ (wrapped ++ closing) ∧ actionsOf t wrapped = body.ops ∧
    Steps.run World.step w opening = some w₁ ∧ Steps.run World.step w₁ wrapped = some w₂ ∧
      Steps.run World.step w₂ closing = some w' ∧ P w₁ w₂ w'

/-- What `InSpan::poll` does, with its span in `h`. -/
def InSpanPolled (w : World T) (t : T) (h : Var) (finished : Option Instant) (now : Instant)
    (w₁ w₂ w' : World T) : Prop :=
  ∃ span, w.spans h = some span ∧ w₁.spanStack t = (InSpan.attach (some span) (w.spanStack t)).2 ∧
    let out := InSpan.poll id (some span) (w.spanStack t) (polledBetween w₁ w₂ t finished.isSome)
      (finished.getD now) now
    w'.spans h = out.span ∧ w'.spanStack t = out.stack ∧ w'.sentOf t = w.sentOf t ++ out.sent.map Prod.snd

/-- What `EnterOnPoll::poll` does. -/
def EnterOnPolled (w : World T) (t : T) (name : String) (id : SpanId) (begin later : Instant)
    (w₁ w₂ w' : World T) : Prop :=
  (LocalSpan.enterWithStack name (w.spanStack t) id begin).map Prod.snd = some (w₁.spanStack t) ∧
    ∃ out, EnterOnPoll.poll name (w.spanStack t) (polledBetween w₁ w₂ t true) id begin later = some out ∧
      w'.spanStack t = out.stack ∧ w'.sentOf t = w.sentOf t ++ out.sent

/-! ### The polls of the adapters -/

private theorem setLocalParent_step {g h : Var} (hw : w.step (t, .setLocalParent g h) = some w') :
    ∃ span, w.spans h = some span ∧ w'.spanStack t = (span.attachIntoStack (w.spanStack t)).2 ∧
      w'.guards g = some (t, (span.attachIntoStack (w.spanStack t)).1) ∧ w'.spans = w.spans ∧ w'.sent = w.sent := by
  have hfree := guard_free hw
  obtain ⟨span, hspan, hw⟩ := Option.bind_eq_some_iff.1 hw
  simp only [hfree, Option.isNone_none, if_true] at hw
  cases hw
  exact ⟨span, hspan, Function.update_self .., Function.update_self .., rfl, rfl⟩

private theorem dropGuard_step {g : Var} {guard : LocalParentGuard} {now : Instant}
    (hw : w.step (t, .dropGuard g now) = some w') (hg : w.guards g = some (t, guard)) :
    w'.spans = w.spans ∧ w'.spanStack t = (guard.drop (w.spanStack t) now).2 ∧
      w'.sentOf t = w.sentOf t ++ (guard.drop (w.spanStack t) now).1 := by
  obtain ⟨guard', howned, rfl⟩ := Option.map_eq_some_iff.1 hw
  rw [hg] at howned
  simp only [World.owned, Option.bind_some, if_true, Option.some.injEq] at howned
  subst howned
  exact ⟨rfl, Function.update_self .., sentOf_append rfl⟩

private theorem dropSpan_step {h : Var} {span : Span} {now : Instant} (hw : w.step (t, .dropSpan h now) = some w')
    (hspan : w.spans h = some span) :
    w'.spans h = none ∧ w'.spanStack = w.spanStack ∧ w'.sentOf t = w.sentOf t ++ span.drop now := by
  obtain ⟨span', hspan', rfl⟩ := Option.map_eq_some_iff.1 hw
  rw [hspan] at hspan'
  cases hspan'
  exact ⟨Function.update_self .., rfl, sentOf_append rfl⟩

private theorem enterLocal_step {v : Var} {name : String} {id : SpanId} {now : Instant}
    (hw : w.step (t, .enterLocal v name id now) = some w') :
    ∃ entered, LocalSpan.enterWithStack name (w.spanStack t) id now = some entered ∧ w'.spanStack t = entered.2 ∧
      w'.localSpans v = some (t, entered.1) ∧ w'.sent = w.sent := by
  have hfree := local_free hw
  obtain ⟨entered, hentered, hw⟩ := Option.bind_eq_some_iff.1 hw
  simp only [hfree, Option.isNone_none, if_true] at hw
  cases hw
  exact ⟨entered, hentered, Function.update_self .., Function.update_self .., rfl⟩

private theorem sentOf_map (source : Source) (cmds : List CollectCommand) :
    (Sent.of source cmds).map Prod.snd = cmds := by
  simp [Sent.of, Function.comp_def]

private theorem polledBetween_sent {cmds : List CollectCommand} (h : w'.sentOf t = w.sentOf t ++ cmds) (finished : Bool)
    (stack : LocalSpanStack) : polledBetween w w' t finished stack = ⟨finished, w'.spanStack t, cmds⟩ := by
  rw [polledBetween, h, List.drop_left]

/-- The span is dropped if the wrapped value has finished. -/
private theorem run_dropping {g h : Var} {span : Span} {finished : Option Instant}
    (hdrop : actionsOf t as = finished.toList.map (Op.dropSpan h))
    (hothers : ∀ a ∈ as, a.1 ≠ t → a.2.spanVar ≠ some h) (hrun : Steps.run World.step w as = some w')
    (hspan : w.spans h = some span) :
    w'.spans h = (if finished.isSome then none else some span) ∧ w'.spanStack t = w.spanStack t ∧
      (∀ {guard}, w.guards g = some (t, guard) → w'.guards g = some (t, guard)) ∧
      w'.sentOf t = w.sentOf t ++ finished.toList.flatMap span.drop := by
  cases finished with
  | none =>
    have hkept := run_others hdrop hrun
    refine ⟨?_, hkept.spanStack, hkept.guards, by rw [hkept.sentOf]; simp⟩
    rw [run_others_span hdrop hothers hrun, hspan]
    rfl
  | some later =>
    obtain ⟨before, after, w₀, w₁, rfl, hidle, hidle', hrun₀, hw₁, hrun⟩ := run_first hdrop hrun
    simp only [List.forall_mem_append, List.forall_mem_cons] at hothers
    have hkept := run_others hidle hrun₀
    have hkept' := run_others hidle' hrun
    have hspan₀ : w₀.spans h = some span := by rw [run_others_span hidle hothers.1 hrun₀, hspan]
    obtain ⟨hgone, hstack, hsent⟩ := dropSpan_step hw₁ hspan₀
    refine ⟨?_, by rw [hkept'.spanStack, hstack, hkept.spanStack], fun hg => hkept'.guards ?_, ?_⟩
    · rw [run_others_span hidle' hothers.2.2 hrun, hgone]
      rfl
    · exact ((step_frames hw₁).guards g (by simp [Op.opens]) (by simp [Op.closes])).trans (hkept.guards hg)
    · rw [hkept'.sentOf, hsent, hkept.sentOf]
      simp

/-- The calls of an `InSpan` are a poll of it, whatever the other threads do in between. -/
theorem inSpan_polled {poll : List (T × Op)} {g h : Var} {body : Work} {finished : Option Instant} {now : Instant}
    (hpoll : actionsOf t poll = (Work.inSpan g h body finished now .done).ops)
    (hrun : Steps.run World.step w poll = some w') (hbody : ∀ op ∈ body.ops, op.spanVar ≠ some h)
    (hothers : ∀ a ∈ poll, a.1 ≠ t → a.2.spanVar ≠ some h) :
    PolledAs (InSpanPolled w t h finished now) w poll t body := by
  obtain ⟨before, as₁, w₀, w₁, rfl, hnil, hrest, hrun₀, hopen, hrun⟩ := run_first hpoll hrun
  obtain ⟨wrapped, as₂, w₂, rfl, hwrapped, hrest, hrun₂, hrun⟩ := run_split hrest hrun
  obtain ⟨dropping, as₃, w₃, rfl, hdropping, hrest, hrun₃, hrun⟩ := run_split hrest hrun
  obtain ⟨as₄, as₅, w₄, w₅, rfl, hnil₄, hnil₅, hrun₄, hclose, hrun₅⟩ := run_first hrest hrun
  simp only [List.forall_mem_append, List.forall_mem_cons] at hothers
  obtain ⟨hfree, -, hfreeBody, hfreeDrop, hfree₄, -, hfree₅⟩ := hothers
  have hkept := run_others hnil hrun₀
  have hkept₄ := run_others hnil₄ hrun₄
  have hkept₅ := run_others hnil₅ hrun₅
  -- the guard is made, the wrapped value is polled
  obtain ⟨span, hspan, hstack₁, hguard₁, hspans₁, hsent₁⟩ := setLocalParent_step hopen
  rw [hkept.spanStack] at hstack₁ hguard₁
  have hspan₂ : w₂.spans h = some span := by
    rw [run_span (by rwa [hwrapped]) hfreeBody hrun₂, hspans₁, hspan]
  have hguard₂ := work_guards hwrapped hrun₂ hguard₁
  obtain ⟨cmds, hcmds⟩ := run_sent hrun₂ t
  have hsent₂ : w₂.sentOf t = w.sentOf t ++ cmds := by
    rw [hcmds, World.sentOf, hsent₁, ← World.sentOf, hkept.sentOf]
  -- the span is dropped or not, and then the guard
  obtain ⟨hspan₃, hstack₃, hguard₃, hsent₃⟩ := run_dropping hdropping hfreeDrop hrun₃ hspan₂
  obtain ⟨hspans₅, hstack₅, hsent₅⟩ := dropGuard_step hclose (hkept₄.guards (hguard₃ hguard₂))
  rw [hkept₄.spanStack, hstack₃] at hstack₅ hsent₅
  have hrunOpen : Steps.run World.step w (before ++ [(t, .setLocalParent g h)]) = some w₁ := Steps.run_step hrun₀ hopen
  have hrunClose : Steps.run World.step w₂ (dropping ++ (as₄ ++ (t, .dropGuard g now) :: as₅)) = some w' :=
    Steps.run_trans hrun₃ hrun
  refine ⟨_, wrapped, _, w₁, w₂, w', by simp, hwrapped, hrunOpen, hrun₂, hrunClose, span, ?_, hstack₁, ?_⟩
  · rw [← hspan, run_others_span hnil hfree hrun₀]
  · simp only [InSpan.poll, InSpan.attach, InSpan.detach, polledBetween_sent hcmds, id_eq]
    refine ⟨?_, by rw [hkept₅.spanStack, hstack₅], ?_⟩
    · rw [run_others_span hnil₅ hfree₅ hrun₅, hspans₅, run_others_span hnil₄ hfree₄ hrun₄, hspan₃]
    · rw [hkept₅.sentOf, hsent₅, hkept₄.sentOf, hsent₃, hsent₂]
      cases finished <;> simp [sentOf_map]

/-- The calls of an `EnterOnPoll` are a poll of it, whatever the other threads do in between. -/
theorem enterOnPoll_polled {poll : List (T × Op)} {v : Var} {name : String} {id : SpanId} {begin later : Instant}
    {body : Work} (hpoll : actionsOf t poll = (Work.enterOnPoll v name id begin body later .done).ops)
    (hrun : Steps.run World.step w poll = some w') (hbody : ∀ op ∈ body.ops, op.localVar ≠ some v) :
    PolledAs (EnterOnPolled w t name id begin later) w poll t body := by
  obtain ⟨before, as₁, w₀, w₁, rfl, hnil, hrest, hrun₀, henter, hrun⟩ := run_first hpoll hrun
  obtain ⟨wrapped, as₂, w₂, rfl, hwrapped, hrest, hrun₂, hclosing⟩ := run_split hrest hrun
  obtain ⟨as₃, as₄, w₃, w₄, rfl, hnil₃, hnil₄, hrun₃, hdrop, hrun₄⟩ := run_first hrest hclosing
  have hkept := run_others hnil hrun₀
  have hkept₃ := run_others hnil₃ hrun₃
  have hkept₄ := run_others hnil₄ hrun₄
  have hrunOpen := Steps.run_step hrun₀ henter
  obtain ⟨entered, hentered, hstack₁, hlocal, hsent₁⟩ := enterLocal_step henter
  rw [hkept.spanStack] at hentered
  obtain ⟨cmds, hcmds⟩ := run_sent hrun₂ t
  have hspan := hkept₃.locals (run_local (by rwa [hwrapped]) hrun₂ hlocal)
  obtain ⟨span, howned, hw₄⟩ := Option.bind_eq_some_iff.1 hdrop
  rw [hspan] at howned
  simp only [World.owned, Option.bind_some, if_true, Option.some.injEq] at howned
  subst howned
  obtain ⟨stack, hstack, rfl⟩ := Option.map_eq_some_iff.1 hw₄
  rw [hkept₃.spanStack] at hstack
  refine ⟨_, wrapped, _, _, w₂, w', by simp, hwrapped, hrunOpen, hrun₂, hclosing, ?_, ⟨true, stack, cmds⟩, ?_, ?_, ?_⟩
  · rw [hentered, hstack₁]
    rfl
  · simp only [EnterOnPoll.poll, hentered, Option.bind_some, polledBetween_sent hcmds, hstack, Option.map_some]
  · rw [hkept₄.spanStack]
    exact Function.update_self ..
  · rw [hkept₄.sentOf]
    change w₃.sentOf t = _
    rw [hkept₃.sentOf, hcmds, World.sentOf, hsent₁, ← World.sentOf, hkept.sentOf]

end Polls

/-! ### Traces of instrumented futures -/

/-- Threads that poll instrumented futures, in any interleaving and with the futures moving from thread to thread: in
the end no stack holds a line and no guard is left, and once all spans have been dropped and all commands received,
every record of the trace of a sampled root is reached from the span of the root.  Each of the polls is one of
`InSpan::poll` or of `EnterOnPoll::poll`, as long as nothing but the adapter is on its span. -/
theorem futures_reach {T : Type} [DecidableEq T] {w : World T} {as : List (T × Op)}
    (hrun : Steps.run World.step World.init as = some w) (hworks : Works as) :
    (∀ t, (w.spanStack t).spanLines = []) ∧ (∀ g, w.guards g = none) ∧
      (∀ {rounds : List Round} {parent : SpanContext} {id : SpanId} {c : CollectId}, (∀ h, w.spans h = none) →
        (received rounds).Perm w.commands → RootCall as parent id c → parent.sampled = true →
          ∀ r ∈ (reportedFor false c rounds).flatten,
            Relation.ReflTransGen (ParentRecord (reportedFor false c rounds).flatten) id r.spanId) ∧
      ∀ {before poll after : List (T × Op)}, as = before ++ (poll ++ after) →
        ∃ w₀, Steps.run World.step World.init before = some w₀ ∧ ∀ (t : T) (body : Work),
          (∀ g h finished now, Interleavings.actionsOf t poll = (Work.inSpan g h body finished now .done).ops →
            (∀ op ∈ body.ops, op.spanVar ≠ some h) → (∀ a ∈ poll, a.1 ≠ t → a.2.spanVar ≠ some h) →
              PolledAs (InSpanPolled w₀ t h finished now) w₀ poll t body) ∧
          ∀ v name id begin later,
            Interleavings.actionsOf t poll = (Work.enterOnPoll v name id begin body later .done).ops →
              (∀ op ∈ body.ops, op.localVar ≠ some v) →
                PolledAs (EnterOnPolled w₀ t name id begin later) w₀ poll t body := by
  obtain ⟨hlifo, hclosed⟩ := lifo_of_work hworks
  obtain ⟨-, hscoped⟩ := scoped_induction (P := fun _ : World T => True) (fun _ _ _ _ _ _ => trivial) hlifo
    scoped_init trivial hrun
  have hlines : ∀ t, (w.spanStack t).spanLines = [] := by
    intro t
    have hmatched := hscoped.lines t
    rw [hclosed t] at hmatched
    generalize hframes : (w.spanStack t).frames = frames at hmatched
    cases hmatched
    exact List.map_eq_nil_iff.1 hframes
  have hguards : ∀ g, w.guards g = none := by
    intro g
    by_contra hsome
    obtain ⟨⟨t, guard⟩, hguard⟩ := Option.ne_none_iff_exists'.1 hsome
    have hopen := (hscoped.owner t (.guard g)).2 ⟨_, by rw [World.handles, hguard, Option.map_some]⟩
    rw [hclosed t] at hopen
    cases hopen
  refine ⟨hlines, hguards, fun hspans hreceived hroot hsampled =>
    records_reached_from hrun hlifo hspans hguards hreceived hroot hsampled, ?_⟩
  intro before poll after hsplit
  rw [hsplit, Steps.run_append] at hrun
  obtain ⟨w₀, hbefore, hrun⟩ := Option.bind_eq_some_iff.1 hrun
  rw [Steps.run_append] at hrun
  obtain ⟨w₁, hpoll, -⟩ := Option.bind_eq_some_iff.1 hrun
  refine ⟨w₀, hbefore, fun t body => ⟨fun g h finished now hops hbody hothers => ?_,
    fun v name id begin later hops hbody => ?_⟩⟩
  · exact inSpan_polled hops hpoll hbody hothers
  · exact enterOnPoll_polled hops hpoll hbody

/-- The future of the span `task` is polled on the thread `1`, while the thread `0` drops the root, and then on the
thread `0`, where it finishes; inside of it another future is entered at every poll. -/
def polledProgram : List (Nat × Op) := [
  (0, .setReporter),
  (0, .root 0 "root" ⟨⟨1⟩, ⟨9⟩, true⟩ ⟨1⟩ ⟨10⟩),
  (0, .enterWithParent 1 "task" 0 ⟨2⟩ ⟨11⟩),
  (1, .setLocalParent 2 1),
  (1, .enterLocal 3 "poll" ⟨3⟩ ⟨12⟩),
  (0, .dropSpan 0 ⟨13⟩),
  (1, .dropLocal 3 ⟨14⟩),
  (1, .dropGuard 2 ⟨15⟩),
  (0, .setLocalParent 4 1),
  (0, .enterLocal 5 "poll" ⟨4⟩ ⟨16⟩),
  (0, .dropLocal 5 ⟨17⟩),
  (0, .dropSpan 1 ⟨18⟩),
  (0, .dropGuard 4 ⟨19⟩)]

/-- The two polls of the future, and the rest of what the threads do. -/
def polledWork : Nat → Work
  | 0 => .call ⟨.setReporter, rfl, rfl⟩ (.call ⟨.root 0 "root" ⟨⟨1⟩, ⟨9⟩, true⟩ ⟨1⟩ ⟨10⟩, rfl, rfl⟩
      (.call ⟨.enterWithParent 1 "task" 0 ⟨2⟩ ⟨11⟩, rfl, rfl⟩ (.call ⟨.dropSpan 0 ⟨13⟩, rfl, rfl⟩
        (.inSpan 4 1 (.enterOnPoll 5 "poll" ⟨4⟩ ⟨16⟩ .done ⟨17⟩ .done) (some ⟨18⟩) ⟨19⟩ .done))))
  | 1 => .inSpan 2 1 (.enterOnPoll 3 "poll" ⟨3⟩ ⟨12⟩ .done ⟨14⟩ .done) none ⟨15⟩ .done
  | _ => .done

private theorem works_polled : Works polledProgram := by
  intro t
  refine ⟨polledWork t, ?_⟩
  match t with
  | 0 => rfl
  | 1 => rfl
  | t + 2 => rfl

def polledWorld : World Nat := (Steps.run World.step World.init polledProgram).getD World.init

def polledRounds : List Round := [⟨polledWorld.commands, fun i => i.ticks, .stored⟩]

theorem futures_reach_polled :
    ((reportedFor false 0 polledRounds).flatten.map SpanRecord.spanId = [⟨1⟩, ⟨3⟩, ⟨2⟩, ⟨4⟩] ∧
      ∀ r ∈ (reportedFor false 0 polledRounds).flatten,
        Relation.ReflTransGen (ParentRecord (reportedFor false 0 polledRounds).flatten) ⟨1⟩ r.spanId) ∧
    (∃ w₀, PolledAs (InSpanPolled w₀ 1 1 none ⟨15⟩) w₀ ((polledProgram.drop 3).take 5) 1
      (.enterOnPoll 3 "poll" ⟨3⟩ ⟨12⟩ .done ⟨14⟩ .done)) ∧
    ∃ w₀, PolledAs (EnterOnPolled w₀ 1 "poll" ⟨3⟩ ⟨12⟩ ⟨14⟩) w₀ ((polledProgram.drop 4).take 3) 1 .done := by
  have hroot : RootCall polledProgram ⟨⟨1⟩, ⟨9⟩, true⟩ ⟨1⟩ 0 :=
    ⟨[(0, .setReporter)], _, 0, 0, "root", ⟨10⟩, _, rfl, rfl, rfl, rfl⟩
  have hgone : ∀ h, polledWorld.spans h = none := emptied _ _ 0 1
  have hreceived : (received polledRounds).Perm polledWorld.commands := by
    rw [polledRounds, received, List.flatMap_singleton]
  obtain ⟨-, -, hreach, hpolls⟩ := futures_reach (w := polledWorld) rfl works_polled
  obtain ⟨w₀, -, hinSpan⟩ := hpolls
    (show polledProgram = polledProgram.take 3 ++ ((polledProgram.drop 3).take 5 ++ polledProgram.drop 8) from rfl)
  obtain ⟨w₁, -, henterOnPoll⟩ := hpolls
    (show polledProgram = polledProgram.take 4 ++ ((polledProgram.drop 4).take 3 ++ polledProgram.drop 7) from rfl)
  refine ⟨⟨by decide, hreach hgone hreceived hroot rfl⟩, ⟨w₀, ?_⟩, w₁, ?_⟩
  · refine (hinSpan 1 (.enterOnPoll 3 "poll" ⟨3⟩ ⟨12⟩ .done ⟨14⟩ .done)).1 2 1 none ⟨15⟩ rfl ?_ ?_
    · simp [Work.ops, Op.spanVar]
    · simp [polledProgram, Op.spanVar]
  · exact (henterOnPoll 1 .done).2 3 "poll" ⟨3⟩ ⟨12⟩ ⟨14⟩ rfl (by simp [Work.ops])

end Fastrace
