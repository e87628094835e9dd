import Fastrace.Effects

/-!
# What the calls of a block do to the top line

Inside of a block every entry is added at the end of the queue of one line (`SpanLine.grow`).  A local span opens an
entry and takes the register, and its drop ends that entry, with whatever has been recorded after it, and gives the
register back (`step_enterLocal`, `step_dropLocal`).  A local parent puts a new line on top, and the drop of its guard
takes it away and submits it (`step_setLocalParent`, `step_dropGuard`).
-/

namespace Fastrace

/-! ### Lines -/

def SpanLine.grow (line : SpanLine) (new : List RawSpan) : SpanLine :=
  { line with spanQueue := { line.spanQueue with spanQueue := line.spanQueue.spanQueue ++ new } }

/-- The line with a local span just opened. -/
def SpanLine.opened (line : SpanLine) (raw : RawSpan) : SpanLine :=
  { line with spanQueue := { line.spanQueue with
      spanQueue := line.spanQueue.spanQueue ++ [raw]
      nextParentId := some raw.id } }

@[simp] theorem grow_nil (line : SpanLine) : line.grow [] = line := by
  unfold SpanLine.grow
  rw [List.append_nil]

@[simp] theorem grow_grow (line : SpanLine) (new new' : List RawSpan) :
    (line.grow new).grow new' = line.grow (new ++ new') := by
  unfold SpanLine.grow
  rw [List.append_assoc]

/-- The lines below the top are the same, the top line has gained at most `n` entries. -/
inductive Grown (n : Nat) (lines : List SpanLine) : List SpanLine → Prop
  | bare (hlines : lines = []) : Grown n lines []
  | top {line : SpanLine} {rest : List SpanLine} {new : List RawSpan} (hlines : lines = line :: rest)
      (hlength : new.length ≤ n) : Grown n lines (line.grow new :: rest)

namespace Grown

variable {n n' : Nat} {lines lines' lines'' : List SpanLine}

theorem refl (n : Nat) (lines : List SpanLine) : Grown n lines lines := by
  cases lines with
  | nil => exact .bare rfl
  | cons line rest =>
    have h : Grown n (line :: rest) (line.grow [] :: rest) := .top rfl (Nat.zero_le _)
    rwa [grow_nil] at h

theorem trans (h : Grown n lines lines') (h' : Grown n' lines' lines'') : Grown (n + n') lines lines'' := by
  cases h with
  | bare hlines =>
    cases h' with
    | bare => exact .bare hlines
    | top hlines' => cases hlines'
  | @top line rest new hlines hlength =>
    cases h' with
    | bare hlines' => cases hlines'
    | @top line' rest' new' hlines' hlength' =>
      cases hlines'
      rw [grow_grow]
      refine .top hlines ?_
      rw [List.length_append]
      omega

theorem length_eq (h : Grown n lines lines') : lines'.length = lines.length := by
  cases h with
  | bare hlines => rw [hlines]
  | top hlines => rw [hlines, List.length_cons, List.length_cons]

end Grown

/-! ### The register -/

/-- Ending a local span restores the register, unless that held the zero id. -/
theorem register_restored {register : Option SpanId} (h : register ≠ some default) :
    (some (register.getD default)).filter (fun id => id ≠ default) = register := by
  cases register with
  | none => rfl
  | some x =>
    have hx : x ≠ default := fun he => h (congrArg some he)
    simp [hx]

/-! ### Entries that are no spans -/

theorem addEvent_grow {stack : LocalSpanStack} {line : SpanLine} {lines : List SpanLine}
    (hlines : stack.spanLines = line :: lines) (hsampled : line.isSampled = true)
    (hroom : line.spanQueue.spanQueue.length < line.spanQueue.capacity) (id : SpanId) (now : Instant)
    (event : Event) : stack.addEvent id now event = { stack with
      spanLines := line.grow [{ RawSpan.beginWith id line.spanQueue.parentId now event.name .event with
        properties := event.properties }] :: lines } := by
  have hqueue : line.spanQueue.addEvent id now event = { line.spanQueue with
      spanQueue := line.spanQueue.spanQueue ++
        [{ RawSpan.beginWith id line.spanQueue.parentId now event.name .event with
          properties := event.properties }] } := by
    rw [SpanQueue.addEvent, if_neg (Nat.not_le.2 hroom)]
  have hline : line.addEvent id now event = { line with spanQueue := line.spanQueue.addEvent id now event } := by
    rw [SpanLine.addEvent, if_neg (by simp [hsampled])]
  simp only [LocalSpanStack.addEvent, hlines, hline, hqueue]
  rfl

theorem addProperties_grow {stack : LocalSpanStack} {line : SpanLine} {lines : List SpanLine}
    (hlines : stack.spanLines = line :: lines) (hsampled : line.isSampled = true)
    (hroom : line.spanQueue.spanQueue.length < line.spanQueue.capacity) (id : SpanId) (properties : Properties) :
    stack.addProperties id properties = { stack with
      spanLines := line.grow [(RawSpan.beginWith id line.spanQueue.parentId .zero "" .properties).extendProperties
        properties] :: lines } := by
  have hqueue : line.spanQueue.addProperties id properties = { line.spanQueue with
      spanQueue := line.spanQueue.spanQueue ++ [(RawSpan.beginWith id line.spanQueue.parentId .zero ""
        .properties).extendProperties properties] } := by
    rw [SpanQueue.addProperties, if_neg (Nat.not_le.2 hroom)]
  have hline : line.addProperties id properties = { line with
      spanQueue := line.spanQueue.addProperties id properties } := by
    rw [SpanLine.addProperties, if_neg (by simp [hsampled])]
  simp only [LocalSpanStack.addProperties, hlines, hline, hqueue]
  rfl

/-! ### Steps -/

section Steps

variable {T : Type} [DecidableEq T] {w w' : World T} {t : T}

theorem step_enterLocal {v : Var} {name : String} {id : SpanId} {now : Instant}
    (hw : w.step (t, .enterLocal v name id now) = some w') :
    ∃ line lines, (w.spanStack t).spanLines = line :: lines ∧ line.isSampled = true ∧
      line.spanQueue.spanQueue.length < line.spanQueue.capacity ∧ w.localSpans v = none ∧
      w' = { w.setStack t { w.spanStack t with
          spanLines := line.opened (.beginWith id line.spanQueue.parentId now name .span) :: lines } with
        localSpans := Function.update w.localSpans v
          (some (t, ⟨some ⟨line.epoch, ⟨line.spanQueue.spanQueue.length⟩⟩⟩)) } := by
  obtain ⟨⟨span, stack⟩, henter, hw⟩ := Option.bind_eq_some_iff.1 hw
  obtain ⟨⟨handle, stack'⟩, hstack, hout⟩ := Option.map_eq_some_iff.1 henter
  cases hout
  unfold LocalSpanStack.enterSpan at hstack
  split at hstack
  · cases hstack
  · rename_i line lines hlines
    obtain ⟨⟨handle', line'⟩, hline, hout⟩ := Option.map_eq_some_iff.1 hstack
    cases hout
    unfold SpanLine.startSpan at hline
    split at hline
    · cases hline
    · rename_i hsampled
      obtain ⟨⟨queueHandle, queue⟩, hqueue, hout⟩ := Option.map_eq_some_iff.1 hline
      cases hout
      unfold SpanQueue.startSpan at hqueue
      split at hqueue
      · cases hqueue
      · rename_i hroom
        cases hqueue
        split at hw
        · rename_i hfree
          cases hw
          exact ⟨line, lines, hlines, by simpa using hsampled, by omega, Option.isNone_iff_eq_none.1 hfree, rfl⟩
        · cases hw

/-- The end of a local span, with the entries `new` recorded since its start. -/
theorem step_dropLocal {v : Var} {later : Instant} {line : SpanLine} {lines : List SpanLine} {raw : RawSpan}
    {new : List RawSpan}
    (hv : w.localSpans v = some (t, ⟨some ⟨line.epoch, ⟨line.spanQueue.spanQueue.length⟩⟩⟩))
    (hlines : (w.spanStack t).spanLines = (line.opened raw).grow new :: lines)
    (hparent : raw.parentId = line.spanQueue.parentId) (hregister : line.spanQueue.nextParentId ≠ some default)
    (hw : w.step (t, .dropLocal v later) = some w') :
    w' = { w.setStack t { w.spanStack t with spanLines := line.grow (raw.endWith later :: new) :: lines } with
      localSpans := Function.update w.localSpans v none } := by
  have hentry : (line.spanQueue.spanQueue ++ [raw] ++ new)[line.spanQueue.spanQueue.length]? = some raw := by
    simp
  have hset : (line.spanQueue.spanQueue ++ [raw] ++ new).set line.spanQueue.spanQueue.length (raw.endWith later) =
      line.spanQueue.spanQueue ++ raw.endWith later :: new := by
    rw [List.append_assoc, List.set_append_right _ _ (Nat.le_refl _), Nat.sub_self]
    rfl
  have hrestored : (some raw.parentId).filter (fun id => id ≠ default) = line.spanQueue.nextParentId := by
    rw [hparent]
    exact register_restored hregister
  obtain ⟨span, hspan, hw⟩ := Option.bind_eq_some_iff.1 hw
  obtain ⟨stack, hstack, rfl⟩ := Option.map_eq_some_iff.1 hw
  rw [hv] at hspan
  simp only [World.owned, Option.bind_some, if_true] at hspan
  cases hspan
  have hfinish : ((line.opened raw).grow new).finishSpan
      ⟨line.epoch, ⟨line.spanQueue.spanQueue.length⟩⟩ later = some (line.grow (raw.endWith later :: new)) := by
    unfold SpanLine.finishSpan SpanQueue.finishSpan
    simp only [SpanLine.opened, SpanLine.grow, hentry, if_true, hset, Option.map_some, hrestored]
  simp only [LocalSpan.drop, LocalSpanStack.exitSpan, hlines, hfinish, Option.map_some] at hstack
  cases hstack
  rfl

/-- A span that records becomes the local parent, if the stack has room for its line. -/
theorem step_setLocalParent {g h : Var} {s : SpanInner} (hs : w.inner h = some s)
    (hroom : (w.spanStack t).spanLines.length < (w.spanStack t).capacity)
    (hw : w.step (t, .setLocalParent g h) = some w') : w.guards g = none ∧
      w' = { w.setStack t { w.spanStack t with
          spanLines := SpanLine.new defaultSpanQueueSize (w.spanStack t).nextSpanLineEpoch
            (some s.issueCollectToken) :: (w.spanStack t).spanLines
          nextSpanLineEpoch := LocalSpanStack.wrappingSucc (w.spanStack t).nextSpanLineEpoch } with
        guards := Function.update w.guards g
          (some (t, ⟨some ⟨some ⟨(w.spanStack t).nextSpanLineEpoch⟩⟩⟩)) } := by
  obtain ⟨span, hspan, hw⟩ := Option.bind_eq_some_iff.1 hw
  have hinner : span.inner = some s := by
    rw [World.inner, hspan, Option.bind_some] at hs
    exact hs
  have hattach : span.attachIntoStack (w.spanStack t) = (⟨some ⟨some ⟨(w.spanStack t).nextSpanLineEpoch⟩⟩⟩,
      { w.spanStack t with
        spanLines := SpanLine.new defaultSpanQueueSize (w.spanStack t).nextSpanLineEpoch
          (some s.issueCollectToken) :: (w.spanStack t).spanLines
        nextSpanLineEpoch := LocalSpanStack.wrappingSucc (w.spanStack t).nextSpanLineEpoch }) := by
    have hnot : ¬(w.spanStack t).spanLines.length ≥ (w.spanStack t).capacity := Nat.not_le.2 hroom
    simp only [Span.attachIntoStack, SpanInner.captureLocalSpans, LocalCollector.new, LocalSpanStack.registerSpanLine,
      hinner, hnot, if_false]
  simp only [hattach] at hw
  split at hw
  · rename_i hfree
    cases hw
    exact ⟨Option.isNone_iff_eq_none.1 hfree, rfl⟩
  · cases hw

/-- The drop of the guard of the top line submits the line. -/
theorem step_dropGuard {g : Var} {now : Instant} {line : SpanLine} {lines : List SpanLine} {token : CollectToken}
    (hg : w.guards g = some (t, ⟨some ⟨some ⟨line.epoch⟩⟩⟩)) (hlines : (w.spanStack t).spanLines = line :: lines)
    (htoken : line.collectToken = some token) (hw : w.step (t, .dropGuard g now) = some w') :
    w' = { w.setStack t { w.spanStack t with spanLines := lines } with
      guards := Function.update w.guards g none }.send t
        (GlobalCollect.submitSpans (.localSpansInner ⟨line.spanQueue.spanQueue, now⟩) token) := by
  obtain ⟨guard, hguard, rfl⟩ := Option.map_eq_some_iff.1 hw
  rw [hg] at hguard
  simp only [World.owned, Option.bind_some, if_true] at hguard
  cases hguard
  simp only [LocalParentGuard.drop, LocalCollector.collectSpansAndToken, LocalSpanStack.unregisterAndCollect, hlines,
    SpanLine.collect, if_true, Option.getD_some, htoken]
  rfl

/-- A run of a block: its opening call, its body, its closing call and what follows. -/
theorem run_block {opening closing : T × Op} {body rest : List (T × Op)}
    (hrun : Steps.run World.step w (opening :: (body ++ closing :: rest)) = some w') :
    ∃ w₁ w₂ w₃, w.step opening = some w₁ ∧ Steps.run World.step w₁ body = some w₂ ∧ w₂.step closing = some w₃ ∧
      Steps.run World.step w₃ rest = some w' := by
  obtain ⟨w₁, hopen, hrun⟩ := Option.bind_eq_some_iff.1 hrun
  rw [Steps.run_append] at hrun
  obtain ⟨w₂, hbody, hrun⟩ := Option.bind_eq_some_iff.1 hrun
  obtain ⟨w₃, hclose, hrun⟩ := Option.bind_eq_some_iff.1 hrun
  exact ⟨w₁, w₂, w₃, hopen, hbody, hclose, hrun⟩

end Steps

end Fastrace
