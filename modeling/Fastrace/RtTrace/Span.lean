import Fastrace.Record

/-!
# Spans and span queues (`rt-trace/src/span.rs`, `command.rs`, `span_queue.rs`)

A `Span` is a raw span together with the shard of its thread, or a no-op when tracing was stopped.  A shard is a queue
of raw spans; it sends them off in one command as soon as there are `DEFAULT_BATCH_SIZE` of them.
-/

namespace RtTrace

open Fastrace (Instant)

structure RunTask where
  id : Option UInt64
  name : Option String
  file : Option String
  line : Option UInt32
  col : Option UInt32
  backtrace : Option String
deriving DecidableEq, Repr

/-- The `Type` of a span. -/
inductive SpanType where
  | runTask (task : RunTask)
  | runtimeStart
  | runtimeTerminate
  | runtimePark
  | runtimeDriver
  | threadDiscriptor (threadName : String)
  | processDiscriptor
deriving DecidableEq, Repr

def SpanType.typeNameStr : SpanType → String
  | .runTask _ => "run_task"
  | .runtimeStart => "runtime_start"
  | .runtimeTerminate => "runtime_terminate"
  | .runtimePark => "runtime_park"
  | .runtimeDriver => "runtime_driver"
  | .threadDiscriptor _ => "thread_discriptor"
  | .processDiscriptor => "process_discriptor"

structure RawSpan where
  typ : SpanType
  threadId : UInt64
  start : Instant
  «end» : Instant
deriving DecidableEq, Repr

structure Span where
  inner : Option RawSpan
  /-- The index of the queue. -/
  spanQueueHandle : Nat
deriving DecidableEq, Repr

/-- `Command::SendSpans`. -/
structure Command where
  sendSpans ::
  spans : List RawSpan
deriving DecidableEq, Repr

def defaultBatchSize : Nat := 16384 / 16

structure SpanQueue where
  spans : List RawSpan := []
deriving DecidableEq, Repr

namespace SpanQueue

/-- The queue is replaced by an empty one; what it held is sent, also when it held nothing. -/
def flush (queue : SpanQueue) : SpanQueue × Command := ({}, .sendSpans queue.spans)

def push (queue : SpanQueue) (span : RawSpan) : SpanQueue × Option Command :=
  let pushed : SpanQueue := { spans := queue.spans ++ [span] }
  if pushed.spans.length = defaultBatchSize then (pushed.flush.1, some pushed.flush.2) else (pushed, none)

/-- A push sends a full batch or nothing. -/
theorem push_cases (queue : SpanQueue) (span : RawSpan) :
    (queue.push span = ({}, some (.sendSpans (queue.spans ++ [span]))) ∧
        (queue.spans ++ [span]).length = defaultBatchSize) ∨
      (queue.push span = ({ spans := queue.spans ++ [span] }, none) ∧
        (queue.spans ++ [span]).length ≠ defaultBatchSize) := by
  unfold push flush
  by_cases h : (queue.spans ++ [span]).length = defaultBatchSize
  · exact Or.inl ⟨by simp only [h, ↓reduceIte], h⟩
  · exact Or.inr ⟨by simp only [h, ↓reduceIte], h⟩

end SpanQueue

end RtTrace
