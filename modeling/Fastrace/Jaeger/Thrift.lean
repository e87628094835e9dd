import Fastrace.Record

/-!
# The Thrift components of the Jaeger reporter

`fastrace-jaeger/src/thrift.rs`: the components of `jaeger.thrift` and their translation into the data of the crate
`thrift_codec`.  Of that crate only the data model is here (`Data`, `Message`); its `Struct::from` of a tuple and its
encoder are parameters.  The reporter builds no tag but string tags, so `Tag` has no other kind.
-/

namespace Fastrace.Jaeger

/-! ### The data of `thrift_codec` -/

inductive Data where
  | i32 (value : Int32)
  | i64 (value : Int64)
  | binary (value : String)
  | struct (fields : List (Nat × Data))
  | list (elements : List Data)

inductive Message where
  | oneway (methodName : String) (sequenceId : Int32) (body : Data)

/-! ### The components of `jaeger.thrift` -/

inductive Tag where
  | string (key value : String)
deriving DecidableEq, Repr

structure Log where
  timestamp : Int64
  fields : List Tag
deriving DecidableEq, Repr

inductive SpanRefKind where
  | followsFrom
deriving DecidableEq, Repr

structure SpanRef where
  kind : SpanRefKind
  traceIdLow : Int64
  traceIdHigh : Int64
  spanId : Int64
deriving DecidableEq, Repr

structure JaegerSpan where
  traceIdLow : Int64
  traceIdHigh : Int64
  spanId : Int64
  parentSpanId : Int64
  operationName : String
  references : List SpanRef
  flags : Int32
  startTime : Int64
  duration : Int64
  tags : List Tag
  logs : List Log
deriving DecidableEq, Repr

structure Process where
  serviceName : String
  tags : List Tag
deriving DecidableEq, Repr

structure Batch where
  process : Process
  spans : List JaegerSpan
deriving DecidableEq, Repr

structure EmitBatchNotification where
  batch : Batch
deriving DecidableEq, Repr

/-! ### Translation (`impl From<_> for Struct`) -/

section Translation

-- `Struct::from` of a tuple
variable (tuple : List Data → Data)

/-- The kind of a string tag is `TagKind::String`, that is `0`. -/
def Tag.toData : Tag → Data
  | .string key value => .struct [(1, .binary key), (2, .i32 0), (3, .binary value)]

def Log.toData (log : Log) : Data := tuple [.i64 log.timestamp, .list (log.fields.map Tag.toData)]

def SpanRefKind.toInt32 : SpanRefKind → Int32
  | .followsFrom => 1

def SpanRef.toData (ref : SpanRef) : Data :=
  tuple [.i32 ref.kind.toInt32, .i64 ref.traceIdLow, .i64 ref.traceIdHigh, .i64 ref.spanId]

/-- A list field is left out where the list is empty. -/
private def listField (id : Nat) (elements : List Data) : List (Nat × Data) :=
  if !elements.isEmpty then [(id, .list elements)] else []

def JaegerSpan.toData (span : JaegerSpan) : Data :=
  .struct ([(1, .i64 span.traceIdLow), (2, .i64 span.traceIdHigh), (3, .i64 span.spanId),
      (4, .i64 span.parentSpanId), (5, .binary span.operationName)] ++
    listField 6 (span.references.map (SpanRef.toData tuple)) ++
    [(7, .i32 span.flags), (8, .i64 span.startTime), (9, .i64 span.duration)] ++
    listField 10 (span.tags.map Tag.toData) ++
    listField 11 (span.logs.map (Log.toData tuple)))

def Process.toData (process : Process) : Data :=
  let tags := process.tags.map Tag.toData
  if tags.isEmpty then tuple [.binary process.serviceName] else tuple [.binary process.serviceName, .list tags]

def Batch.toData (batch : Batch) : Data :=
  tuple [batch.process.toData tuple, .list (batch.spans.map (JaegerSpan.toData tuple))]

def EmitBatchNotification.toMessage (notification : EmitBatchNotification) : Message :=
  .oneway "emitBatch" 0 (tuple [notification.batch.toData tuple])

end Translation

end Fastrace.Jaeger
