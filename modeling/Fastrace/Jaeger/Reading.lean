import Fastrace.Jaeger.Reporter

/-!
# What an agent reads

An agent reads a packet by the components of `jaeger.thrift`: a field of a structure by its number, and a list that is
left out as the empty list.  Whatever the service, the spans and the sizes, what it reads of the packets of a call of
`try_report` are spans of the call, in their order, each with its ids, its parent, its name, its properties and its
events, and with times that are exact to the microsecond (`packets_read`).  This is so also when the call ends early
with an error.
-/

namespace Fastrace.Jaeger

/-! ### Reading data -/

namespace Data

def i32? : Data → Option Int32
  | .i32 value => some value
  | _ => none

def i64? : Data → Option Int64
  | .i64 value => some value
  | _ => none

def binary? : Data → Option String
  | .binary value => some value
  | _ => none

def list? : Data → Option (List Data)
  | .list elements => some elements
  | _ => none

/-- The field with the number. -/
def field? (data : Data) (id : Nat) : Option Data :=
  match data with
  | .struct fields => (fields.find? (·.1 = id)).map (·.2)
  | _ => none

/-- A field that may be left out. -/
def listField? (data : Data) (id : Nat) : Option (List Data) :=
  match data.field? id with
  | some field => field.list?
  | none => some []

end Data

def Tag.read (data : Data) : Option Tag := do
  let key ← (← data.field? 1).binary?
  let kind ← (← data.field? 2).i32?
  if kind = 0 then
    return .string key (← (← data.field? 3).binary?)
  else none

def Log.read (data : Data) : Option Log := do
  return {
    timestamp := ← (← data.field? 1).i64?
    fields := ← (← (← data.field? 2).list?).mapM Tag.read }

def SpanRef.read (data : Data) : Option SpanRef := do
  let kind ← (← data.field? 1).i32?
  if kind = SpanRefKind.followsFrom.toInt32 then
    return {
      kind := .followsFrom
      traceIdLow := ← (← data.field? 2).i64?
      traceIdHigh := ← (← data.field? 3).i64?
      spanId := ← (← data.field? 4).i64? }
  else none

def JaegerSpan.read (data : Data) : Option JaegerSpan := do
  return {
    traceIdLow := ← (← data.field? 1).i64?
    traceIdHigh := ← (← data.field? 2).i64?
    spanId := ← (← data.field? 3).i64?
    parentSpanId := ← (← data.field? 4).i64?
    operationName := ← (← data.field? 5).binary?
    references := ← (← data.listField? 6).mapM SpanRef.read
    flags := ← (← data.field? 7).i32?
    startTime := ← (← data.field? 8).i64?
    duration := ← (← data.field? 9).i64?
    tags := ← (← data.listField? 10).mapM Tag.read
    logs := ← (← data.listField? 11).mapM Log.read }

def Process.read (data : Data) : Option Process := do
  return {
    serviceName := ← (← data.field? 1).binary?
    tags := ← (← data.listField? 2).mapM Tag.read }

def Batch.read (data : Data) : Option Batch := do
  return {
    process := ← Process.read (← data.field? 1)
    spans := ← (← (← data.field? 2).list?).mapM JaegerSpan.read }

def EmitBatchNotification.read : Message → Option EmitBatchNotification
  | .oneway methodName _ body =>
    if methodName = "emitBatch" then do return { batch := ← Batch.read (← body.field? 1) } else none

/-! ### What has been written is read -/

/-- `Struct::from` of a tuple gives the fields the numbers from `1`. -/
def NumbersFields (tuple : List Data → Data) : Prop :=
  ∀ (values : List Data) (i : Nat), (tuple values).field? (i + 1) = values[i]?

private theorem mapM_read {α β : Type} {read : β → Option α} {write : α → β} (h : ∀ a, read (write a) = some a)
    (as : List α) : (as.map write).mapM read = some as := by
  induction as with
  | nil => rfl
  | cons a as ih =>
    rw [List.map_cons, List.mapM_cons, h, ih]
    rfl

private theorem Tag.read_toData (tag : Tag) : Tag.read tag.toData = some tag := by
  cases tag
  rfl

section Written

variable {tuple : List Data → Data} (hnumbers : NumbersFields tuple)

include hnumbers

private theorem Log.read_toData (log : Log) : Log.read (log.toData tuple) = some log := by
  have htimestamp : (log.toData tuple).field? 1 = some (.i64 log.timestamp) := hnumbers _ 0
  have hlist : (log.toData tuple).field? 2 = some (.list (log.fields.map Tag.toData)) := hnumbers _ 1
  have hfields := mapM_read Tag.read_toData log.fields
  simp [Log.read, htimestamp, hlist, hfields, Data.i64?, Data.list?]

private theorem SpanRef.read_toData (ref : SpanRef) : SpanRef.read (ref.toData tuple) = some ref := by
  obtain ⟨⟨⟩, low, high, id⟩ := ref
  have hkind : ((SpanRef.mk .followsFrom low high id).toData tuple).field? 1 = some (.i32 1) := hnumbers _ 0
  have hlow : ((SpanRef.mk .followsFrom low high id).toData tuple).field? 2 = some (.i64 low) := hnumbers _ 1
  have hhigh : ((SpanRef.mk .followsFrom low high id).toData tuple).field? 3 = some (.i64 high) := hnumbers _ 2
  have hid : ((SpanRef.mk .followsFrom low high id).toData tuple).field? 4 = some (.i64 id) := hnumbers _ 3
  simp [SpanRef.read, hkind, hlow, hhigh, hid, Data.i32?, Data.i64?, SpanRefKind.toInt32]

/-- Each field is found under its number, whichever lists are left out. -/
private theorem JaegerSpan.read_toData (span : JaegerSpan) : JaegerSpan.read (span.toData tuple) = some span := by
  have hreferences := mapM_read (SpanRef.read_toData hnumbers) span.references
  have htags := mapM_read Tag.read_toData span.tags
  have hlogs := mapM_read (Log.read_toData hnumbers) span.logs
  have hread : JaegerSpan.read (span.toData tuple) = (do return { span with
      references := ← (span.references.map (SpanRef.toData tuple)).mapM SpanRef.read
      tags := ← (span.tags.map Tag.toData).mapM Tag.read
      logs := ← (span.logs.map (Log.toData tuple)).mapM Log.read } : Option JaegerSpan) := by
    obtain ⟨low, high, id, parent, name, references, flags, start, duration, tags, logs⟩ := span
    cases references <;> cases tags <;> cases logs <;> rfl
  rw [hread, hreferences, htags, hlogs]
  rfl

private theorem Process.read_toData (process : Process) : Process.read (process.toData tuple) = some process := by
  obtain ⟨serviceName, tags⟩ := process
  have htags := mapM_read Tag.read_toData tags
  have hname : ((Process.mk serviceName tags).toData tuple).field? 1 = some (.binary serviceName) := by
    cases tags <;> exact hnumbers _ 0
  have hlist : ((Process.mk serviceName tags).toData tuple).listField? 2 = some (tags.map Tag.toData) := by
    unfold Data.listField?
    cases tags with
    | nil =>
      have hnone : ((Process.mk serviceName []).toData tuple).field? 2 = none := hnumbers _ 1
      rw [hnone]
      rfl
    | cons tag tags =>
      have hsome : ((Process.mk serviceName (tag :: tags)).toData tuple).field? 2 =
          some (.list ((tag :: tags).map Tag.toData)) := hnumbers _ 1
      rw [hsome]
      rfl
  simp [Process.read, hname, hlist, htags, Data.binary?]

private theorem Batch.read_toData (batch : Batch) : Batch.read (batch.toData tuple) = some batch := by
  have hprocess : (batch.toData tuple).field? 1 = some (batch.process.toData tuple) := hnumbers _ 0
  have hlist : (batch.toData tuple).field? 2 = some (.list (batch.spans.map (JaegerSpan.toData tuple))) :=
    hnumbers _ 1
  have hspans := mapM_read (JaegerSpan.read_toData hnumbers) batch.spans
  simp [Batch.read, hprocess, hlist, hspans, Process.read_toData hnumbers, Data.list?]

private theorem EmitBatchNotification.read_toMessage (notification : EmitBatchNotification) :
    EmitBatchNotification.read (notification.toMessage tuple) = some notification := by
  have hbatch : (tuple [notification.batch.toData tuple]).field? 1 = some (notification.batch.toData tuple) :=
    hnumbers _ 0
  simp [EmitBatchNotification.read, EmitBatchNotification.toMessage, hbatch, Batch.read_toData hnumbers]

end Written

/-! ### Records -/

/-- The two halves of a trace id. -/
def readTraceId (high low : Int64) : TraceId := ⟨high.toUInt64.toBitVec ++ low.toUInt64.toBitVec⟩

def readSpanId (id : Int64) : SpanId := ⟨id.toUInt64.toBitVec⟩

/-- A signed number of microseconds, in nanoseconds. -/
def readMicros (micros : Int64) : UInt64 := .ofNat (micros.toInt.toNat * 1000)

def readProperties (tags : List Tag) : Properties := tags.map fun | .string key value => (key, value)

/-- The name of an event is its first field. -/
def readEvent (log : Log) : Option EventRecord :=
  match log.fields with
  | .string "name" name :: fields => some ⟨name, readMicros log.timestamp, readProperties fields⟩
  | _ => none

def readRecord (span : JaegerSpan) : Option SpanRecord := do
  return {
    traceId := readTraceId span.traceIdHigh span.traceIdLow
    spanId := readSpanId span.spanId
    parentId := readSpanId span.parentSpanId
    beginTimeUnixNs := readMicros span.startTime
    durationNs := readMicros span.duration
    name := span.operationName
    properties := readProperties span.tags
    events := ← span.logs.mapM readEvent }

def eventMicros (event : EventRecord) : EventRecord :=
  { event with timestampUnixNs := event.timestampUnixNs / 1000 * 1000 }

/-- The record with its times cut to microseconds. -/
def recordMicros (record : SpanRecord) : SpanRecord :=
  { record with
    beginTimeUnixNs := record.beginTimeUnixNs / 1000 * 1000
    durationNs := record.durationNs / 1000 * 1000
    events := record.events.map eventMicros }

private theorem asI64_toBitVec {w : Nat} (x : BitVec w) : (asI64 x).toUInt64.toBitVec = x.setWidth 64 := rfl

private theorem readTraceId_asI64 (x : BitVec 128) : readTraceId (asI64 (x >>> 64)) (asI64 x) = ⟨x⟩ := by
  unfold readTraceId
  rw [asI64_toBitVec, asI64_toBitVec]
  congr 1
  apply BitVec.eq_of_toNat_eq
  have hlow : (x.setWidth 64).toNat < 2 ^ 64 := BitVec.isLt _
  rw [BitVec.toNat_append, ← Nat.shiftLeft_add_eq_or_of_lt hlow, Nat.shiftLeft_eq, BitVec.toNat_setWidth,
    BitVec.toNat_setWidth, BitVec.toNat_ushiftRight, Nat.shiftRight_eq_div_pow]
  omega

private theorem readSpanId_asI64 (x : BitVec 64) : readSpanId (asI64 x) = ⟨x⟩ := by
  unfold readSpanId
  rw [asI64_toBitVec, BitVec.setWidth_eq]

/-- The number of microseconds is small enough for the sign, and not negative. -/
private theorem readMicros_div (ns : UInt64) : readMicros (ns / 1000).toInt64 = ns / 1000 * 1000 := by
  have hlt : ns.toNat < 2 ^ 64 := ns.toNat_lt
  have hdiv : (ns / 1000).toBitVec.toNat = ns.toNat / 1000 := UInt64.toNat_div ns 1000
  have hint : (ns / 1000).toInt64.toInt = (ns.toNat / 1000 : Nat) := by
    change (ns / 1000).toBitVec.toInt = _
    rw [BitVec.toInt_eq_toNat_cond, if_pos (by omega), hdiv]
  unfold readMicros
  rw [hint, Int.toNat_natCast]
  apply UInt64.toNat_inj.1
  rw [UInt64.toNat_ofNat', UInt64.toNat_mul, UInt64.toNat_div]
  rfl

private theorem readProperties_convert (properties : Properties) :
    readProperties (convertProperties properties) = properties := by
  unfold readProperties convertProperties
  rw [List.map_map]
  exact List.map_id' properties

private theorem readEvent_convert (event : EventRecord) :
    readEvent (convertEvent event) = some (eventMicros event) := by
  have hfields : (convertEvent event).fields = .string "name" event.name :: convertProperties event.properties := rfl
  unfold readEvent
  rw [hfields]
  simp only [readProperties_convert]
  change some (⟨event.name, readMicros (event.timestampUnixNs / 1000).toInt64, event.properties⟩ : EventRecord) = _
  rw [readMicros_div]
  rfl

private theorem readRecord_convert (record : SpanRecord) :
    readRecord (convertSpan record) = some (recordMicros record) := by
  have hevents : (record.events.map convertEvent).mapM readEvent = some (record.events.map eventMicros) := by
    induction record.events with
    | nil => rfl
    | cons event events ih =>
      rw [List.map_cons, List.mapM_cons, readEvent_convert, ih]
      rfl
  unfold readRecord
  simp only [convertSpan, hevents, readTraceId_asI64, readSpanId_asI64, readMicros_div, readProperties_convert]
  rfl

/-! ### Packets -/

variable {ε : Type} {reporter : JaegerReporter ε} {spans : List SpanRecord} {p p' : Progress}

/-- The service and the spans of a packet. -/
def readPacket (compactDecode : List UInt8 → Option Message) (bytes : List UInt8) :
    Option (String × List SpanRecord) := do
  let notification ← EmitBatchNotification.read (← compactDecode bytes)
  return (notification.batch.process.serviceName, ← notification.batch.spans.mapM readRecord)

/-- The agent decodes what the crate encodes of the messages of reporters. -/
def Decodes (compactDecode : List UInt8 → Option Message) (agent : Agent ε) : Prop :=
  ∀ (notification : EmitBatchNotification) (bytes : List UInt8),
    agent.compactEncode (notification.toMessage agent.tuple) = .ok bytes →
      compactDecode bytes = some (notification.toMessage agent.tuple)

private theorem readPacket_of_carries {compactDecode : List UInt8 → Option Message}
    (hnumbers : NumbersFields reporter.agent.tuple) (hdecodes : Decodes compactDecode reporter.agent) {packet : Packet}
    (hcarries : reporter.Carries packet.spans packet.bytes) :
    readPacket compactDecode packet.bytes = some (reporter.serviceName, packet.spans.map recordMicros) := by
  have hspans : (convert packet.spans).mapM readRecord = some (packet.spans.map recordMicros) := by
    unfold convert
    induction packet.spans with
    | nil => rfl
    | cons s spans ih =>
      rw [List.map_cons, List.mapM_cons, readRecord_convert, ih]
      rfl
  have hmessage := hdecodes _ _ hcarries
  unfold readPacket
  simp only [hmessage, Option.bind_eq_bind, Option.bind_some, EmitBatchNotification.read_toMessage hnumbers, hspans]
  rfl

namespace JaegerReporter

/-- The packets of the loop, however it ends. -/
private theorem rounds_carry {fuel : Nat} {packets : List Packet} {res : Except ε Unit}
    (hbatch : p.sentSpans < spans.length → 0 < p.spansPerBatch)
    (h : reporter.rounds spans fuel p = some (packets, res)) : ∃ sent, packets = p.packets ++ sent ∧
      (∀ packet ∈ sent, reporter.Carries packet.spans packet.bytes) ∧
      (sent.flatMap (·.spans)).Sublist (remaining spans p) := by
  have hnone : ∀ p : Progress, ∃ sent, p.packets = p.packets ++ sent ∧
      (∀ packet ∈ sent, reporter.Carries packet.spans packet.bytes) ∧
      (sent.flatMap (·.spans)).Sublist (remaining spans p) :=
    fun p => ⟨[], (List.append_nil _).symm, fun packet hpacket => (by cases hpacket), List.nil_sublist _⟩
  induction fuel generalizing p with
  | zero => cases h
  | succ fuel ih =>
    rw [rounds] at h
    split at h
    · rename_i hsent
      cases hround : reporter.round spans p with
      | error err =>
        simp only [hround] at h
        cases h
        exact hnone _
      | ok p' =>
        simp only [hround] at h
        obtain ⟨hbatch', -, hadvance⟩ := round_advances hround (hbatch hsent) hsent
        obtain ⟨sent, rfl, hcarries, hsub⟩ := ih (fun _ => hbatch') h
        cases hadvance with
        | @send packet hpacket hsize hpackets hremaining =>
          refine ⟨packet :: sent, ?_, List.forall_mem_cons.2 ⟨hpacket, hcarries⟩, ?_⟩
          · rw [hpackets, List.append_assoc, List.singleton_append]
          · rw [hremaining, List.flatMap_cons]
            exact hsub.append_left _
        | skip hfits hpackets hremaining =>
          exact ⟨sent, by rw [hpackets], hcarries, by rw [hremaining]; exact hsub.cons _⟩
        | halve hpackets hremaining => exact ⟨sent, by rw [hpackets], hcarries, by rw [hremaining]; exact hsub⟩
    · cases h
      exact hnone _

/-- For every service and all spans, with an encoder and a socket that may fail at any call: a call of `try_report`
ends, and of every packet that it has sent, the agent reads the name of the service and spans of the call, with times
in microseconds, and all packets together hold the spans in their order, each once at most. -/
theorem packets_read {compactDecode : List UInt8 → Option Message} (hnumbers : NumbersFields reporter.agent.tuple)
    (hdecodes : Decodes compactDecode reporter.agent) (spans : List SpanRecord) :
    ∃ packets res, (∀ fuel, 2 * spans.length < fuel → reporter.tryReport fuel spans = some (packets, res)) ∧
      (∀ fuel r, reporter.tryReport fuel spans = some r → r = (packets, res)) ∧
      ∃ batches : List (List SpanRecord),
        packets.mapM (fun packet => readPacket compactDecode packet.bytes) =
          some (batches.map fun batch => (reporter.serviceName, batch)) ∧
        batches.flatten.Sublist (spans.map recordMicros) := by
  obtain ⟨⟨packets, res⟩, hends, hsame⟩ := tryReport_ends reporter spans
  obtain ⟨sent, hpackets, hcarries, hsent⟩ := rounds_carry id (hends _ (Nat.lt_succ_self _))
  obtain rfl : packets = sent := hpackets
  refine ⟨packets, res, hends, hsame, packets.map fun packet => packet.spans.map recordMicros, ?_, ?_⟩
  · clear hends hsame hsent
    induction packets with
    | nil => rfl
    | cons packet packets ih =>
      rw [List.forall_mem_cons] at hcarries
      rw [List.mapM_cons, readPacket_of_carries hnumbers hdecodes hcarries.1, ih hcarries.2]
      rfl
  · rw [← List.flatMap_def, ← List.map_flatMap]
    exact hsent.map recordMicros

/-! ### A packet with one span -/

private theorem numbersFields_numbered : NumbersFields numbered := by
  have hfrom : ∀ (values : List Data) (start i : Nat),
      (((values.zipIdx start).map fun p => (p.2 + 1, p.1)).find? (·.1 = start + i + 1)).map (·.2) =
        values[i]? := by
    intro values
    induction values with
    | nil => simp
    | cons value values ih =>
      intro start i
      cases i with
      | zero => simp
      | succ i =>
        have hnext : start + (i + 1) + 1 = start + 1 + i + 1 := by omega
        rw [List.zipIdx_cons, List.map_cons, List.find?_cons_of_neg (by simp), hnext, ih,
          List.getElem?_cons_succ]
  intro values i
  have hzero := hfrom values 0 i
  rw [Nat.zero_add] at hzero
  exact hzero

def oneSpanNotification : EmitBatchNotification := ⟨⟨⟨"s", []⟩, convert [oneSpan]⟩⟩

/-- A reporter whose encoder gives what the crate's gives for this message, and fails for every other; its socket
fails from the second packet on. -/
def strictReporter : JaegerReporter Unit where
  agent := {
    tuple := numbered
    compactEncode := fun msg =>
      if EmitBatchNotification.read msg = some oneSpanNotification then .ok oneSpanBytes else .error ()
    sendTo := fun sentBefore _ => if sentBefore = 0 then .ok () else .error () }
  serviceName := "s"

def strictDecode (bytes : List UInt8) : Option Message :=
  if bytes = oneSpanBytes then some (oneSpanNotification.toMessage numbered) else none

theorem packets_read_oneSpan : ∃ packets res,
    (∀ fuel, 2 * 1 < fuel → strictReporter.tryReport fuel [oneSpan] = some (packets, res)) ∧
    (∀ fuel r, strictReporter.tryReport fuel [oneSpan] = some r → r = (packets, res)) ∧
    ∃ batches : List (List SpanRecord),
      packets.mapM (fun packet => readPacket strictDecode packet.bytes) =
        some (batches.map fun batch => ("s", batch)) ∧
      batches.flatten.Sublist ([oneSpan].map recordMicros) ∧ packets = [⟨[oneSpan], oneSpanBytes⟩] := by
  have hdecodes : Decodes strictDecode strictReporter.agent := by
    intro notification bytes hbytes
    simp only [strictReporter, EmitBatchNotification.read_toMessage numbersFields_numbered, Option.some.injEq] at hbytes
    split at hbytes
    · rename_i hsame
      cases hbytes
      rw [strictDecode, if_pos rfl, hsame]
      rfl
    · cases hbytes
  have hnumbers : NumbersFields strictReporter.agent.tuple := numbersFields_numbered
  obtain ⟨packets, res, hends, hsame, batches, hread, hsub⟩ := packets_read hnumbers hdecodes [oneSpan]
  have heq : some ([⟨[oneSpan], oneSpanBytes⟩], .ok ()) = some (packets, res) := hends 3 (by decide)
  cases heq
  exact ⟨_, _, hends, hsame, batches, hread, hsub, rfl⟩

end JaegerReporter

end Fastrace.Jaeger
