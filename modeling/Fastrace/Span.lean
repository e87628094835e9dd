import Fastrace.LocalSpanStack

/-!
# Spans, guards and local collectors (`span.rs`, `local/local_collector.rs`, `local/local_span.rs`, `event.rs`)

The functions of the library as functions of the values they are called on: a function that records on the stack of
the calling thread takes that stack and returns the new one, a function that sends commands returns them in the order
of sending.  Ids and clock readings are inputs; the closures that compute properties are given by their results.

What is not here: `elapsed`, and the paths taken when a thread local is already destroyed.
-/

namespace Fastrace

structure SpanContext where
  traceId : TraceId
  spanId : SpanId
  sampled : Bool
deriving DecidableEq, Repr

/-- `NOT_SAMPLED_COLLECT_ID`, that is `usize::MAX`. -/
def notSampledCollectId : CollectId := UInt64.size - 1

/-- The commands that `GlobalCollect::submit_spans` sends. -/
def GlobalCollect.submitSpans (spans : SpanSet) (collectToken : CollectToken) : List CollectCommand :=
  let collectToken := retainSampled collectToken
  if !collectToken.isEmpty then [.submitSpans ⟨spans, collectToken⟩] else []

def Event.new (name : String) : Event where
  name := name
  properties := none

def Event.withProperties (event : Event) (properties : Properties) : Event :=
  { event with properties := some (event.properties.getD [] ++ properties) }

/-! ### Local collectors -/

structure LocalCollector where
  inner : Option SpanLineHandle
deriving DecidableEq, Repr

namespace LocalCollector

/-- On a full stack the collector is empty. -/
def new (collectToken : Option CollectToken) (stack : LocalSpanStack) : LocalCollector × LocalSpanStack :=
  match stack.registerSpanLine collectToken with
  | some (spanLineHandle, stack) => (⟨some spanLineHandle⟩, stack)
  | none => (⟨none⟩, stack)

def start (stack : LocalSpanStack) : LocalCollector × LocalSpanStack := new none stack

def collectSpansAndToken (collector : LocalCollector) (stack : LocalSpanStack) (now : Instant) :
    (LocalSpansInner × Option CollectToken) × LocalSpanStack :=
  match collector.inner with
  | none => ((⟨[], now⟩, none), stack)
  | some spanLineHandle =>
    let collected := stack.unregisterAndCollect spanLineHandle
    let spansAndToken := collected.1.getD ([], none)
    ((⟨spansAndToken.1, now⟩, spansAndToken.2), collected.2)

def collect (collector : LocalCollector) (stack : LocalSpanStack) (now : Instant) :
    LocalSpansInner × LocalSpanStack :=
  let out := collector.collectSpansAndToken stack now
  (out.1.1, out.2)

def drop (collector : LocalCollector) (stack : LocalSpanStack) : LocalSpanStack :=
  match collector.inner with
  | none => stack
  | some spanLineHandle => (stack.unregisterAndCollect spanLineHandle).2

end LocalCollector

/-! ### Local spans -/

structure LocalSpan where
  inner : Option LocalSpanHandle
deriving DecidableEq, Repr

namespace LocalSpan

/-- `expect("span exhausted")` panics on a span that cannot be recorded: `none`. -/
def enterWithStack (name : String) (stack : LocalSpanStack) (id : SpanId) (now : Instant) :
    Option (LocalSpan × LocalSpanStack) :=
  (stack.enterSpan id now name).map fun p => (⟨some p.1⟩, p.2)

def withProperties (span : LocalSpan) (stack : LocalSpanStack) (properties : Properties) : Option LocalSpanStack :=
  match span.inner with
  | none => some stack
  | some spanHandle => stack.withProperties spanHandle properties

def drop (span : LocalSpan) (stack : LocalSpanStack) (now : Instant) : Option LocalSpanStack :=
  match span.inner with
  | none => some stack
  | some spanHandle => stack.exitSpan spanHandle now

variable {span : LocalSpan} {stack stack' : LocalSpanStack}

theorem withProperties_cases {properties : Properties} (h : span.withProperties stack properties = some stack') :
    stack' = stack ∨ stack.TopChange none stack' := by
  unfold withProperties at h
  split at h
  · cases h
    exact Or.inl rfl
  · exact LocalSpanStack.withProperties_cases h

theorem drop_cases {now : Instant} (h : span.drop stack now = some stack') :
    stack' = stack ∨ stack.TopChange none stack' := by
  unfold drop at h
  split at h
  · cases h
    exact Or.inl rfl
  · exact LocalSpanStack.exitSpan_cases h

end LocalSpan

/-! ### Local parent guards -/

structure LocalParentGuard where
  inner : Option LocalCollector
deriving DecidableEq, Repr

def LocalParentGuard.noop : LocalParentGuard where
  inner := none

def LocalParentGuard.drop (guard : LocalParentGuard) (stack : LocalSpanStack) (now : Instant) :
    List CollectCommand × LocalSpanStack :=
  match guard.inner with
  | none => ([], stack)
  | some collector =>
    let out := collector.collectSpansAndToken stack now
    match out.1.2 with
    | some token => (GlobalCollect.submitSpans (.localSpansInner out.1.1) token, out.2)
    | none => ([], out.2)

/-! ### Spans -/

structure SpanInner where
  rawSpan : RawSpan
  collectToken : CollectToken
  /-- Set for a root span only. -/
  collectId : Option CollectId
deriving DecidableEq, Repr

/-- The items for the children of the span `id` with the token `collectToken`. -/
def issueToken (id : SpanId) (collectToken : CollectToken) : CollectToken :=
  collectToken.map fun item => { item with parentId := id, isRoot := false }

namespace SpanInner

def issueCollectToken (inner : SpanInner) : CollectToken := issueToken inner.rawSpan.id inner.collectToken

def addProperties (inner : SpanInner) (properties : Properties) : SpanInner :=
  { inner with rawSpan := inner.rawSpan.extendProperties properties }

def captureLocalSpans (inner : SpanInner) (stack : LocalSpanStack) : LocalParentGuard × LocalSpanStack :=
  let collector := LocalCollector.new (some inner.issueCollectToken) stack
  (⟨some collector.1⟩, collector.2)

def pushChildSpans (inner : SpanInner) (localSpans : LocalSpansInner) : List CollectCommand :=
  if localSpans.spans.isEmpty then []
  else GlobalCollect.submitSpans (.sharedLocalSpans localSpans) inner.issueCollectToken

def submitSpans (inner : SpanInner) : List CollectCommand :=
  GlobalCollect.submitSpans (.span inner.rawSpan) inner.collectToken

end SpanInner

structure Span where
  inner : Option SpanInner
deriving DecidableEq, Repr

namespace Span

def noop : Span where
  inner := none

def new (collectToken : CollectToken) (name : String) (collectId : Option CollectId) (id : SpanId) (now : Instant) :
    Span where
  inner := some {
    rawSpan := RawSpan.beginWith id default now name .span
    collectToken := collectToken
    collectId := collectId }

/-- The token of a root span. -/
def rootToken (parent : SpanContext) (collectId : CollectId) : CollectToken :=
  [{ traceId := parent.traceId
     parentId := parent.spanId
     collectId := collectId
     isRoot := true
     isSampled := parent.sampled }]

/-- A sampled root takes the next collect id and starts its collection. -/
def root (reporterReady : Bool) (nextCollectId : CollectId) (name : String) (parent : SpanContext) (id : SpanId)
    (now : Instant) : Span × CollectId × List CollectCommand :=
  if !reporterReady then (noop, nextCollectId, [])
  else if parent.sampled then
    (new (rootToken parent nextCollectId) name (some nextCollectId) id now, nextCollectId + 1,
      [.startCollect nextCollectId])
  else
    (new (rootToken parent notSampledCollectId) name (some notSampledCollectId) id now, nextCollectId, [])

def enterWithParents (name : String) (parents : List Span) (id : SpanId) (now : Instant) : Span :=
  new ((parents.filterMap Span.inner).flatMap SpanInner.issueCollectToken) name none id now

def enterWithParent (name : String) (parent : Span) (id : SpanId) (now : Instant) : Span :=
  match parent.inner with
  | some _ => enterWithParents name [parent] id now
  | none => noop

def enterWithStack (name : String) (stack : LocalSpanStack) (id : SpanId) (now : Instant) : Span :=
  match stack.currentCollectToken with
  | some token => new token name none id now
  | none => noop

def attachIntoStack (span : Span) (stack : LocalSpanStack) : LocalParentGuard × LocalSpanStack :=
  match span.inner with
  | some inner => inner.captureLocalSpans stack
  | none => (LocalParentGuard.noop, stack)

def withProperties (span : Span) (properties : Properties) : Span where
  inner := span.inner.map fun inner => inner.addProperties properties

/-- The properties travel as a child span of kind `Properties`. -/
def addProperties (span : Span) (properties : Properties) (id : SpanId) (now : Instant) : List CollectCommand :=
  match ((enterWithParent "" span id now).withProperties properties).inner with
  | some inner => SpanInner.submitSpans { inner with rawSpan := { inner.rawSpan with rawKind := .properties } }
  | none => []

/-- An event travels as a child span of kind `Event`. -/
def addEvent (span : Span) (event : Event) (id : SpanId) (now : Instant) : List CollectCommand :=
  match (enterWithParent event.name span id now).inner with
  | some inner =>
    SpanInner.submitSpans { inner with
      rawSpan := { inner.rawSpan with rawKind := .event, properties := event.properties } }
  | none => []

def pushChildSpans (span : Span) (localSpans : LocalSpansInner) : List CollectCommand :=
  match span.inner with
  | some inner => inner.pushChildSpans localSpans
  | none => []

def cancel (span : Span) : List CollectCommand :=
  match span.inner with
  | some inner =>
    match inner.collectId with
    | some collectId => [.dropCollect collectId]
    | none => []
  | none => []

/-- The span is submitted, then the collection of a root is committed. -/
def drop (span : Span) (now : Instant) : List CollectCommand :=
  match span.inner with
  | some inner =>
    let submitted := SpanInner.submitSpans { inner with rawSpan := inner.rawSpan.endWith now, collectId := none }
    match inner.collectId with
    | some collectId => submitted ++ [.commitCollect collectId]
    | none => submitted
  | none => []

end Span

end Fastrace
