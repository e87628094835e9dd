import Fastrace.HashMap
import Fastrace.Steps
import Fastrace.RtTrace.RingBuffer
import Fastrace.RtTrace.Span

/-!
# The runtime (`rt-trace/src/lib.rs`, `span_queue.rs`, `consumer.rs`)

Threads come and go; each creates and drops spans, starts, stops and flushes the tracing.  A call is cut where it
takes or releases a lock or touches a channel: `Phase` says where a thread stands in a call, and `Op.next` is its next
step.

* `Span::drop` reads `ENABLED` and then pushes the raw span under the lock of its shard.
* `flush` stops the tracing, flushes the shards one after the other, starts the tracing, takes the lock of
  `GLOBAL_SPAN_CONSUMER`, collects the commands of all channels and drains the ring buffer to the consumer.
* A round of the thread `global-span-consumer` takes the same lock and collects.

While a collect goes on it holds `SPSC_RXS`, so no channel is registered; the other threads can still send through the
channels there are.  The consumer that `initialize` has set is asked for nothing; `consumed` are the calls of its
`consume`, each with the spans it is given and the descriptors it drains, as that of `PerfettoReporter` does.

In a `World.step` every call of `consume` returns.  In a `World.act` it may panic instead, which unwinds `flush`: the
lock of `GLOBAL_SPAN_CONSUMER` is released, and the batches that the call has drained and not passed on yet are lost.
-/

namespace RtTrace

open Fastrace (Instant)

abbrev Var := Nat

/-- What the platform says of a thread. -/
structure ThreadInfo where
  /-- `thread_id::get()`. -/
  id : UInt64
  name : Option String
deriving DecidableEq, Repr

def threadDescriptor (info : ThreadInfo) : RawSpan where
  typ := .threadDiscriptor (info.name.getD (toString info.id))
  threadId := info.id
  start := Instant.zero
  «end» := Instant.zero

def processDescriptor (info : ThreadInfo) : RawSpan where
  typ := .processDiscriptor
  threadId := info.id
  start := Instant.zero
  «end» := Instant.zero

/-- A descriptor that has been added before makes the call panic. -/
def addDescriptor (descriptors : HashMap RawSpan Bool) (span : RawSpan) : Option (HashMap RawSpan Bool) :=
  if (descriptors.get? span).isSome then none else some (descriptors.insert span false)

/-- The descriptors that have not been drained yet, and the map in which they are. -/
def drainDescriptors (order : IterOrder RawSpan) (descriptors : HashMap RawSpan Bool) :
    List RawSpan × HashMap RawSpan Bool :=
  let drained := (order.visit descriptors.keys).filter fun span => descriptors.get? span = some false
  (drained, drained.foldl (fun descriptors span => descriptors.insert span true) descriptors)

/-- The capacity of a channel. -/
def channelCapacity : Nat := 10240

inductive Phase where
  | idle
  /-- In `Span::drop`, before the lock of the shard. -/
  | pushing (queue : Nat) (span : RawSpan)
  /-- In `flush`, before the shard `index`. -/
  | flushing (index : Nat)
  /-- Before the lock of `GLOBAL_SPAN_CONSUMER`, in `flush` or in a round of the consumer thread. -/
  | locking (flush : Bool)
  /-- In `collect_and_push_commands`, at the receiver `index`. -/
  | collecting (flush : Bool) (index : Nat)
  | collected (flush : Bool)
  /-- In `GlobalSpanConsumer::flush`, with the batches still to be consumed. -/
  | delivering (batches : List (List RawSpan))
deriving DecidableEq, Repr

/-- The span that the thread is about to push. -/
def Phase.toPush : Phase → Option RawSpan
  | .pushing _ span => some span
  | _ => none

def Phase.batches : Phase → List (List RawSpan)
  | .delivering batches => batches
  | _ => []

/-- What the commands of a run have come to; the code keeps none of it. -/
structure History where
  /-- The spans pushed to a queue. -/
  pushed : List RawSpan := []
  /-- The commands sent since the ring buffer was last drained, and those that were still in a channel then. -/
  sent : List Command := []
  /-- The commands that a full channel has refused. -/
  refused : List Command := []
  /-- The commands overwritten in the ring buffer. -/
  overwritten : List Command := []
  /-- The commands moved to the ring buffer since it was last drained. -/
  collected : List Command := []
  /-- Those of them that have been overwritten. -/
  evicted : List Command := []
  /-- The batches lost when a call of `consume` has panicked. -/
  lost : List (List RawSpan) := []

structure World (T : Type) where
  shardNum : Nat
  shardNum_pos : 0 < shardNum
  enabled : Bool
  alive : List T
  exited : List T
  /-- `THREAD_INITIALIZED`. -/
  initialized : T → Bool
  spans : Var → Option Span
  /-- `SPAN_QUEUE_STORE`. -/
  queues : List SpanQueue
  /-- The threads whose channels are registered in `SPSC_RXS`. -/
  receivers : List T
  channel : T → List Command
  commandBuf : Option (RingBuffer Command)
  descriptors : HashMap RawSpan Bool
  flushedOnce : Bool
  /-- The thread that holds `GLOBAL_SPAN_CONSUMER`. -/
  lock : Option T
  phase : T → Phase
  /-- The calls of `consume`: the descriptors drained and the spans. -/
  consumed : List (List RawSpan × List RawSpan)
  history : History

inductive Op where
  | threadStart
  | threadExit
  | span (h : Var) (typ : SpanType) (now : Instant)
  | dropSpan (h : Var) (now : Instant)
  | start
  | stop
  | flush
  /-- A round of the consumer thread. -/
  | collect
  /-- The next step of the call the thread is in; `order` is the order in which a descriptor map is iterated. -/
  | next (order : IterOrder RawSpan)

namespace World

variable {T : Type}

def init (shardNum : Nat) (h : 0 < shardNum) : World T where
  shardNum := shardNum
  shardNum_pos := h
  enabled := false
  alive := []
  exited := []
  initialized _ := false
  spans _ := none
  queues := List.replicate shardNum {}
  receivers := []
  channel _ := []
  commandBuf := none
  descriptors := HashMap.empty
  flushedOnce := false
  lock := none
  phase _ := .idle
  consumed := []
  history := {}

/-- Someone is in `collect_and_push_commands`. -/
def rxsLocked (w : World T) : Bool :=
  match w.lock.map w.phase with
  | some (.collecting _ _) => true
  | _ => false

/-- Moves a command to the ring buffer, which is made with the first one. -/
def pushOverwrite (w : World T) (command : Command) : World T :=
  let buf := w.commandBuf.getD (RingBuffer.new (w.shardNum * 2) (Nat.mul_pos w.shardNum_pos (by decide)))
  { w with
    commandBuf := some (buf.pushOverwrite command)
    history := { w.history with
      overwritten := w.history.overwritten ++ buf.overwritten.toList
      collected := w.history.collected ++ [command]
      evicted := w.history.evicted ++ buf.overwritten.toList } }

variable [DecidableEq T]

def setPhase (w : World T) (t : T) (phase : Phase) : World T :=
  { w with phase := Function.update w.phase t phase }

/-- Sends through the channel of the thread; the first command has the channel registered. -/
def sendCommand (w : World T) (t : T) (command : Command) : Option (World T) :=
  if t ∈ w.receivers then
    if (w.channel t).length < channelCapacity then
      some { w with
        channel := Function.update w.channel t (w.channel t ++ [command])
        history := { w.history with sent := w.history.sent ++ [command] } }
    else some { w with history := { w.history with refused := w.history.refused ++ [command] } }
  else if w.rxsLocked then none
  else some { w with
    receivers := w.receivers ++ [t]
    channel := Function.update w.channel t [command]
    history := { w.history with sent := w.history.sent ++ [command] } }

/-- `rt_trace::span`. -/
def newSpan (w : World T) (info : T → ThreadInfo) (t : T) (h : Var) (typ : SpanType) (now : Instant) :
    Option (World T) :=
  let handle := (info t).id.toNat % w.shardNum
  if (w.spans h).isSome then none
  else if w.enabled then
    (if w.initialized t then some w.descriptors else addDescriptor w.descriptors (threadDescriptor (info t))).map
      fun descriptors => { w with
        descriptors := descriptors
        initialized := Function.update w.initialized t true
        spans := Function.update w.spans h (some ⟨some ⟨typ, (info t).id, now, Instant.zero⟩, handle⟩) }
  else some { w with spans := Function.update w.spans h (some ⟨none, handle⟩) }

/-- The first half of `Span::drop`. -/
def dropSpan (w : World T) (t : T) (h : Var) (now : Instant) : Option (World T) :=
  (w.spans h).map fun span =>
    let dropped := { w with spans := Function.update w.spans h none }
    match w.enabled, span.inner with
    | true, some raw => dropped.setPhase t (.pushing span.spanQueueHandle { raw with «end» := now })
    | _, _ => dropped

/-- `GlobalSpanConsumer::flush` up to the loop over the batches. -/
def drain (w : World T) (info : T → ThreadInfo) (t : T) : Option (World T) :=
  (if w.flushedOnce then some w.descriptors else addDescriptor w.descriptors (processDescriptor (info t))).map
    fun descriptors =>
      let described := { w with descriptors := descriptors, flushedOnce := true }
      match w.commandBuf with
      | none => { described with lock := none }.setPhase t .idle
      | some buf =>
        { described with
          commandBuf := some buf.drain.2
          history := { w.history with
            sent := w.receivers.flatMap w.channel
            collected := []
            evicted := [] } }.setPhase t (.delivering (buf.drain.1.map Command.spans))

/-- The next step of the call that the thread is in; a call of `consume` returns. -/
def next (w : World T) (info : T → ThreadInfo) (t : T) (order : IterOrder RawSpan) : Option (World T) :=
  match w.phase t with
  | .idle => none
  | .pushing i span =>
    (w.queues[i]?).bind fun queue =>
      let pushed := { w with
        queues := w.queues.set i (queue.push span).1
        history := { w.history with pushed := w.history.pushed ++ [span] } }.setPhase t .idle
      match (queue.push span).2 with
      | none => some pushed
      | some command => pushed.sendCommand t command
  | .flushing index =>
    if index < w.queues.length then
      (w.queues[index % w.shardNum]?).bind fun queue =>
        ({ w with queues := w.queues.set (index % w.shardNum) queue.flush.1 }.setPhase t
          (.flushing (index + 1))).sendCommand t queue.flush.2
    else some ({ w with enabled := true }.setPhase t (.locking true))
  | .locking flush =>
    if w.lock.isNone then some ({ w with lock := some t }.setPhase t (.collecting flush 0)) else none
  | .collecting flush index =>
    match w.receivers[index]? with
    | none => some (w.setPhase t (.collected flush))
    | some u =>
      match w.channel u with
      | [] => some (w.setPhase t (.collecting flush (index + 1)))
      | command :: rest => some ({ w with channel := Function.update w.channel u rest }.pushOverwrite command)
  | .collected false => some ({ w with lock := none }.setPhase t .idle)
  | .collected true => w.drain info t
  | .delivering [] => some ({ w with lock := none }.setPhase t .idle)
  | .delivering (batch :: batches) =>
    let drained := drainDescriptors order w.descriptors
    some ({ w with
      descriptors := drained.2
      consumed := w.consumed ++ [(drained.1, batch)] }.setPhase t (.delivering batches))

/-- A thread that is alive and in no call may begin one. -/
def free (w : World T) (t : T) : Bool := t ∈ w.alive ∧ w.phase t = .idle

/-- Thread ids are those of `info`; no two threads alive have the same. -/
def step (info : T → ThreadInfo) (w : World T) : T × Op → Option (World T)
  | (t, .threadStart) =>
    if t ∉ w.alive ∧ t ∉ w.exited ∧ ∀ u ∈ w.alive, (info u).id ≠ (info t).id then
      some { w with alive := t :: w.alive }
    else none
  | (t, .threadExit) =>
    if w.free t then some { w with alive := w.alive.erase t, exited := t :: w.exited } else none
  | (t, .span h typ now) => if w.free t then w.newSpan info t h typ now else none
  | (t, .dropSpan h now) => if w.free t then w.dropSpan t h now else none
  | (t, .start) => if w.free t then some { w with enabled := true } else none
  | (t, .stop) => if w.free t then some { w with enabled := false } else none
  | (t, .flush) => if w.free t then some ({ w with enabled := false }.setPhase t (.flushing 0)) else none
  | (t, .collect) => if w.free t then some (w.setPhase t (.locking false)) else none
  | (t, .next order) => w.next info t order

end World

/-! ### Panics -/

/-- An operation, and whether the call of `consume` in it panics. -/
structure PanicOp where
  op : Op
  panics : Bool := false

/-- No call of `consume` panics. -/
def quietly {T : Type} (as : List (T × Op)) : List (T × PanicOp) := as.map fun a => (a.1, { op := a.2 })

namespace World

variable {T : Type}

/-- The iteration order and the batch of the call of `consume` that the next step makes, if it makes one. -/
def consumes (w : World T) (t : T) : Op → Option (IterOrder RawSpan × List RawSpan)
  | .next order =>
    match w.phase t with
    | .delivering (batch :: _) => some (order, batch)
    | _ => none
  | _ => none

variable [DecidableEq T]

/-- A panic in `consume` leaves `flush`. -/
def unwind (w : World T) (t : T) : World T :=
  { w with lock := none, history := { w.history with lost := w.history.lost ++ (w.phase t).batches } }.setPhase t .idle

/-- A step in which the call of `consume` may panic. -/
def act (info : T → ThreadInfo) (w : World T) : T × PanicOp → Option (World T)
  | (t, a) => (w.step info (t, a.op)).map fun w' =>
    if a.panics && (w.consumes t a.op).isSome then w'.unwind t else w'

end World

end RtTrace
