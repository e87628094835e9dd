import Fastrace.HashMap

/-!
# Spans, records and collect commands

The data the collector works on: ids (`collector/id.rs`), raw spans (`local/raw_span.rs`), the sets in which they
are submitted, the token items that say for which traces, the commands of the channels (`collector/command.rs`) and
the records passed to the reporter (`collector/mod.rs`).

The clock is the crate `fastant`.  An instant is its tick count; an `Anchor` is known to the collector only through
the conversion `as_unix_nanos` makes with it, so an anchor is that conversion.
-/

namespace Fastrace

structure TraceId where
  val : BitVec 128
deriving DecidableEq, Repr, Inhabited

/-- A span id; `SpanId::default()` is the id `0`. -/
structure SpanId where
  val : BitVec 64
deriving DecidableEq, Repr, Inhabited

/-- The key of a trace in the collector (`usize`), drawn from the counter `NEXT_COLLECT_ID`. -/
abbrev CollectId := Nat

structure Instant where
  ticks : UInt64
deriving DecidableEq, Repr, Inhabited

/-- `Instant::ZERO`, the end instant of a span that is still open. -/
def Instant.zero : Instant := ⟨0⟩

abbrev Anchor := Instant → UInt64

def Instant.asUnixNanos (i : Instant) (anchor : Anchor) : UInt64 := anchor i

def saturatingSub (a b : UInt64) : UInt64 := if b ≤ a then a - b else 0

abbrev Properties := List (String × String)

inductive RawKind where
  | span
  | event
  | properties
deriving DecidableEq, Repr

structure RawSpan where
  id : SpanId
  parentId : SpanId
  beginInstant : Instant
  name : String
  properties : Option Properties
  rawKind : RawKind
  endInstant : Instant
deriving DecidableEq, Repr

structure LocalSpansInner where
  spans : List RawSpan
  endTime : Instant
deriving DecidableEq, Repr

inductive SpanSet where
  | span (rawSpan : RawSpan)
  | localSpansInner (localSpans : LocalSpansInner)
  | sharedLocalSpans (localSpans : LocalSpansInner)
deriving DecidableEq, Repr

structure CollectTokenItem where
  traceId : TraceId
  parentId : SpanId
  collectId : CollectId
  isRoot : Bool
  isSampled : Bool
deriving DecidableEq, Repr

abbrev CollectToken := List CollectTokenItem

/-- The items that `submit_spans` keeps. -/
def retainSampled (collectToken : CollectToken) : CollectToken := collectToken.filter (·.isSampled)

structure SubmitSpans where
  spans : SpanSet
  collectToken : CollectToken
deriving DecidableEq, Repr

inductive CollectCommand where
  | startCollect (collectId : CollectId)
  | dropCollect (collectId : CollectId)
  | commitCollect (collectId : CollectId)
  | submitSpans (cmd : SubmitSpans)
deriving DecidableEq, Repr

structure EventRecord where
  name : String
  timestampUnixNs : UInt64
  properties : Properties
deriving DecidableEq, Repr

structure SpanRecord where
  traceId : TraceId
  spanId : SpanId
  parentId : SpanId
  beginTimeUnixNs : UInt64
  durationNs : UInt64
  name : String
  properties : Properties
  events : List EventRecord
deriving DecidableEq, Repr

/-- The record without what is attached to the span: its properties and events. -/
def SpanRecord.bare (r : SpanRecord) : SpanRecord := { r with properties := [], events := [] }

/-- An attachment waiting for the record of its span. -/
inductive DanglingItem where
  | event (event : EventRecord)
  | properties (properties : Properties)
deriving DecidableEq, Repr

def DanglingItem.events : DanglingItem → List EventRecord
  | .event e => [e]
  | .properties _ => []

def DanglingItem.props : DanglingItem → Properties
  | .event _ => []
  | .properties ps => ps

/-- The raw spans of a set and the instant that ends the ones still open; a single span ends itself. -/
def SpanSet.raws : SpanSet → List RawSpan
  | .span rawSpan => [rawSpan]
  | .localSpansInner localSpans => localSpans.spans
  | .sharedLocalSpans localSpans => localSpans.spans

end Fastrace
