import Fastrace.RtTrace.Span

/-!
# Packets (`rt-trace/src/backend/perfetto.rs`)

`PerfettoReporter::consume` writes one packet for each descriptor and two for each span into a vector of packets that
it gets from a pool.  A packet is not made anew: each of the four shapes assigns some of the fields of the packet that
lies at the index.  `get_unchecked_mut` does not check the index; one that is out of bounds is `Fault.overrun` here,
while the code goes on with undefined behaviour.  Of the generated `TracePacket` the model has the fields that
`consume` assigns; the others keep their default values in every packet.
-/

namespace RtTrace

open Fastrace (Anchor Instant)

structure DebugAnnotation where
  nameField : Option String := none
  value : Option String := none
deriving DecidableEq, Repr

/-- `track_event::Type`. -/
inductive EventType where
  | sliceBegin
  | sliceEnd
deriving DecidableEq, Repr

structure TrackEvent where
  trackUuid : Option UInt64
  nameField : Option String
  type : Option EventType
  debugAnnotations : List DebugAnnotation
deriving DecidableEq, Repr

structure ProcessDescriptor where
  pid : Option Int32
deriving DecidableEq, Repr

structure ThreadDescriptor where
  pid : Option Int32
  tid : Option Int32
  threadName : Option String
deriving DecidableEq, Repr

structure TrackDescriptor where
  uuid : Option UInt64
  staticOrDynamicName : Option String
  process : Option ProcessDescriptor
  thread : Option ThreadDescriptor
deriving DecidableEq, Repr

inductive Data where
  | trackDescriptor (descriptor : TrackDescriptor)
  | trackEvent (event : TrackEvent)
deriving DecidableEq, Repr

structure TracePacket where
  timestamp : Option UInt64 := none
  trustedPid : Option Int32 := none
  data : Option Data := none
  optionalTrustedUid : Option Int32 := none
  optionalTrustedPacketSequenceId : Option UInt32 := none
deriving DecidableEq, Repr

def bufSize : Nat := defaultBatchSize * 4

/-- A fresh vector of the pool. -/
def initPackets : List TracePacket := List.replicate bufSize {}

def createDebugAnnotations : List DebugAnnotation := [{ nameField := some "key1", value := some "value1" }]

def createTrackEvent (name : Option String) (trackUuid : UInt64) (eventType : Option EventType)
    (debugAnnotations : List DebugAnnotation) : TrackEvent where
  trackUuid := some trackUuid
  nameField := name
  type := eventType
  debugAnnotations := debugAnnotations

def createProcessDescriptor (pid : Int32) : ProcessDescriptor := { pid := some pid }

def createTrackDescriptor (uuid : UInt64) (name : Option String) (process : Option ProcessDescriptor)
    (thread : Option ThreadDescriptor) : TrackDescriptor where
  uuid := some uuid
  staticOrDynamicName := name
  process := process
  thread := thread

def createThreadDescriptor (pid : Int32) (threadId : UInt64) (threadName : String) : ThreadDescriptor where
  pid := some pid
  tid := some threadId.toUInt32.toInt32
  threadName := some threadName

def appendThreadDescriptor (trace : TracePacket) (threadName : String) (pid : Int32) (trackUuid : UInt64) :
    TracePacket :=
  { trace with
    data := some (.trackDescriptor (createTrackDescriptor trackUuid (some threadName)
      (some (createProcessDescriptor pid)) (some (createThreadDescriptor pid trackUuid threadName))))
    optionalTrustedUid := some 42 }

def appendProcessDescriptor (trace : TracePacket) (pid : Int32) (trackUuid : UInt64) : TracePacket :=
  { trace with
    data := some (.trackDescriptor (createTrackDescriptor trackUuid none (some (createProcessDescriptor pid)) none))
    optionalTrustedUid := some 42 }

/-- The start event of a span. -/
def startPacket (anchor : Anchor) (span : RawSpan) (packet : TracePacket) : TracePacket :=
  { packet with
    data := some (.trackEvent (createTrackEvent (some span.typ.typeNameStr) span.threadId (some .sliceBegin)
      createDebugAnnotations))
    timestamp := some (span.start.asUnixNanos anchor)
    optionalTrustedPacketSequenceId := some 42 }

/-- The end event of a span. -/
def endPacket (pid : Int32) (anchor : Anchor) (span : RawSpan) (packet : TracePacket) : TracePacket :=
  { packet with
    data := some (.trackEvent (createTrackEvent none span.threadId (some .sliceEnd) createDebugAnnotations))
    trustedPid := some pid
    timestamp := some (span.end.asUnixNanos anchor)
    optionalTrustedPacketSequenceId := some 42 }

/-- What stops `consume`. -/
inductive Fault where
  /-- `get_unchecked_mut` is called with an index that is out of bounds. -/
  | overrun (index : Nat)
  | panicked
  /-- The writer fails, and `unwrap` panics, when the packets have been encoded. -/
  | unwritten (packets : List TracePacket)
deriving DecidableEq, Repr

def getUncheckedMut (packets : List TracePacket) (index : Nat) : Except Fault TracePacket :=
  match packets[index]? with
  | some packet => .ok packet
  | none => .error (.overrun index)

/-- `packets.swap(0, index)`. -/
def swapFirst (packets : List TracePacket) (index : Nat) : List TracePacket :=
  match packets[0]?, packets[index]? with
  | some first, some packet => (packets.set 0 packet).set index first
  | _, _ => packets

/-- The packets, and how many of them are filled. -/
abbrev Filling := List TracePacket × Nat

/-- The body of the loop over the descriptors. -/
def appendDescriptor (pid : Int32) (filling : Filling) (descriptor : RawSpan) : Except Fault Filling :=
  (getUncheckedMut filling.1 filling.2).bind fun packet =>
    match descriptor.typ with
    | .processDiscriptor =>
      .ok (swapFirst (filling.1.set filling.2 (appendProcessDescriptor packet pid descriptor.threadId)) filling.2,
        filling.2 + 1)
    | .threadDiscriptor threadName =>
      .ok (swapFirst (filling.1.set filling.2 (appendThreadDescriptor packet threadName pid descriptor.threadId))
        filling.2, filling.2 + 1)
    | _ => .error .panicked

/-- The body of the loop over the spans. -/
def appendSpan (pid : Int32) (anchor : Anchor) (filling : Filling) (span : RawSpan) : Except Fault Filling :=
  (getUncheckedMut filling.1 filling.2).bind fun packet =>
    match span.typ with
    | .processDiscriptor => .error .panicked
    | .threadDiscriptor _ => .error .panicked
    | .runtimeStart => .error .panicked
    | _ =>
      let started := filling.1.set filling.2 (startPacket anchor span packet)
      (getUncheckedMut started (filling.2 + 1)).bind fun packet =>
        .ok (started.set (filling.2 + 1) (endPacket pid anchor span packet), filling.2 + 2)

/-- The two loops of `consume`. -/
def fillPackets (pid : Int32) (anchor : Anchor) (descriptors spans : List RawSpan) (packets : List TracePacket) :
    Except Fault Filling :=
  (descriptors.foldlM (appendDescriptor pid) (packets, 0)).bind fun filling =>
    spans.foldlM (appendSpan pid anchor) filling

/-! ### The types -/

def SpanType.isDescriptor : SpanType → Bool
  | .threadDiscriptor _ => true
  | .processDiscriptor => true
  | _ => false

/-- The types that `consume` writes events for. -/
def SpanType.isSlice : SpanType → Bool
  | .threadDiscriptor _ => false
  | .processDiscriptor => false
  | .runtimeStart => false
  | _ => true

/-- The packet of a descriptor. -/
def descriptorPacket (pid : Int32) (descriptor : RawSpan) (packet : TracePacket) : TracePacket :=
  match descriptor.typ with
  | .threadDiscriptor threadName => appendThreadDescriptor packet threadName pid descriptor.threadId
  | _ => appendProcessDescriptor packet pid descriptor.threadId

section Bodies

variable {pid : Int32} {anchor : Anchor} {packets : List TracePacket} {n : Nat}

private theorem getUncheckedMut_of_le (h : packets.length ≤ n) : getUncheckedMut packets n = .error (.overrun n) := by
  simp [getUncheckedMut, List.getElem?_eq_none h]

private theorem getUncheckedMut_of_lt (h : n < packets.length) : getUncheckedMut packets n = .ok packets[n] := by
  simp [getUncheckedMut, List.getElem?_eq_getElem h]

theorem appendDescriptor_of_le (h : packets.length ≤ n) (descriptor : RawSpan) :
    appendDescriptor pid (packets, n) descriptor = .error (.overrun n) := by
  simp only [appendDescriptor, getUncheckedMut_of_le h]
  rfl

theorem appendDescriptor_of_lt (h : n < packets.length) (descriptor : RawSpan) :
    appendDescriptor pid (packets, n) descriptor =
      if descriptor.typ.isDescriptor then
        .ok (swapFirst (packets.set n (descriptorPacket pid descriptor packets[n])) n, n + 1)
      else .error .panicked := by
  simp only [appendDescriptor, getUncheckedMut_of_lt h, descriptorPacket]
  cases descriptor.typ <;> rfl

theorem appendSpan_of_le (h : packets.length ≤ n) (span : RawSpan) :
    appendSpan pid anchor (packets, n) span = .error (.overrun n) := by
  simp only [appendSpan, getUncheckedMut_of_le h]
  rfl

theorem appendSpan_of_lt (h : n < packets.length) (span : RawSpan) :
    appendSpan pid anchor (packets, n) span = if span.typ.isSlice then
      (if h' : n + 1 < packets.length then .ok ((packets.set n (startPacket anchor span packets[n])).set (n + 1)
        (endPacket pid anchor span packets[n + 1]), n + 2) else .error (.overrun (n + 1)))
      else .error .panicked := by
  simp only [appendSpan, getUncheckedMut_of_lt h]
  have hsecond : ∀ packet, ((getUncheckedMut (packets.set n packet) (n + 1)).bind fun packet' =>
      .ok ((packets.set n packet).set (n + 1) (endPacket pid anchor span packet'), n + 2) : Except Fault Filling) =
      if h' : n + 1 < packets.length then .ok ((packets.set n packet).set (n + 1)
        (endPacket pid anchor span packets[n + 1]), n + 2) else .error (.overrun (n + 1)) := by
    intro packet
    by_cases h' : n + 1 < packets.length
    · rw [getUncheckedMut_of_lt (by rwa [List.length_set]), dif_pos h', List.getElem_set_ne (by omega)]
      rfl
    · rw [getUncheckedMut_of_le (by rw [List.length_set]; omega), dif_neg h']
      rfl
  cases span.typ <;> first | rfl | exact hsecond _

end Bodies

end RtTrace
