import Fastrace.Jaeger.Thrift
import Fastrace.Packing
import Mathlib.Data.List.TakeDrop

/-!
# The Jaeger reporter

`fastrace-jaeger/src/lib.rs`: span records are converted, serialized and sent in batches, each in one UDP packet.  A
batch that is too large is not sent: the batch size is halved, or, if the batch is a single span, that span is skipped.

`tryReport_packs`: for spans of any sizes the loop ends after at most two rounds a span, every packet is shorter than
the limit, and the spans sent, in their order, and the spans skipped, each too large by itself, are all the spans.
-/

namespace Fastrace.Jaeger

variable {ε : Type}

/-! ### Conversion -/

/-- `x as i64` of an unsigned number: its lowest 64 bits. -/
def asI64 {w : Nat} (x : BitVec w) : Int64 := (UInt64.ofBitVec (x.setWidth 64)).toInt64

def convertProperties (properties : Properties) : List Tag := properties.map fun (k, v) => .string k v

def convertEvent (event : EventRecord) : Log where
  timestamp := (event.timestampUnixNs / 1000).toInt64
  fields := convertProperties (("name", event.name) :: event.properties)

def convertSpan (s : SpanRecord) : JaegerSpan where
  traceIdHigh := asI64 (s.traceId.val >>> 64)
  traceIdLow := asI64 s.traceId.val
  spanId := asI64 s.spanId.val
  parentSpanId := asI64 s.parentId.val
  operationName := s.name
  references := []
  flags := 1
  startTime := (s.beginTimeUnixNs / 1000).toInt64
  duration := (s.durationNs / 1000).toInt64
  tags := convertProperties s.properties
  logs := s.events.map convertEvent

def convert (spans : List SpanRecord) : List JaegerSpan := spans.map convertSpan

/-! ### The reporter -/

/-- What the reporter calls outside: the crate `thrift_codec` and its socket, with the agent's address. -/
structure Agent (ε : Type) where
  /-- `Struct::from` of a tuple. -/
  tuple : List Data → Data
  compactEncode : Message → Except ε (List UInt8)
  /-- What becomes of a packet, after so many others. -/
  sendTo (sentBefore : Nat) : List UInt8 → Except ε Unit

structure JaegerReporter (ε : Type) where
  agent : Agent ε
  serviceName : String

/-- A packet handed to the socket, with the spans that it carries. -/
structure Packet where
  spans : List SpanRecord
  bytes : List UInt8
deriving DecidableEq, Repr

/-- The state of the loop of `try_report`, with the packets it has sent. -/
structure Progress where
  spansPerBatch : Nat
  sentSpans : Nat
  packets : List Packet
deriving DecidableEq, Repr

def maxUdpPackageSize : Nat := 8000

namespace JaegerReporter

def serialize (reporter : JaegerReporter ε) (spans : List JaegerSpan) : Except ε (List UInt8) :=
  let bn : EmitBatchNotification :=
    { batch := { process := { serviceName := reporter.serviceName, tags := [] }, spans := spans } }
  reporter.agent.compactEncode (bn.toMessage reporter.agent.tuple)

/-- One round of the loop of `try_report`. -/
def round (reporter : JaegerReporter ε) (spans : List SpanRecord) (p : Progress) : Except ε Progress := do
  let batchSize := min p.spansPerBatch (spans.length - p.sentSpans)
  let batch := (spans.drop p.sentSpans).take batchSize
  let bytes ← reporter.serialize (convert batch)
  if maxUdpPackageSize ≤ bytes.length then
    if batchSize ≤ 1 then
      return { p with sentSpans := p.sentSpans + 1 }
    else
      return { p with spansPerBatch := p.spansPerBatch / 2 }
  else
    reporter.agent.sendTo p.packets.length bytes
    return { p with sentSpans := p.sentSpans + batchSize, packets := p.packets ++ [⟨batch, bytes⟩] }

/-- The loop of `try_report`: the packets sent and the result, or `none` where the fuel does not suffice. -/
def rounds (reporter : JaegerReporter ε) (spans : List SpanRecord) :
    Nat → Progress → Option (List Packet × Except ε Unit)
  | 0, _ => none
  | fuel + 1, p =>
    if p.sentSpans < spans.length then
      match reporter.round spans p with
      | .error err => some (p.packets, .error err)
      | .ok p => reporter.rounds spans fuel p
    else
      some (p.packets, .ok ())

def tryReport (reporter : JaegerReporter ε) (fuel : Nat) (spans : List SpanRecord) :
    Option (List Packet × Except ε Unit) :=
  reporter.rounds spans fuel { spansPerBatch := spans.length, sentSpans := 0, packets := [] }

/-- `Reporter::report`: the packets sent; an error is only logged. -/
def report (reporter : JaegerReporter ε) (fuel : Nat) (spans : List SpanRecord) : Option (List Packet) :=
  if spans.isEmpty then some [] else (reporter.tryReport fuel spans).map (·.1)

/-! ### What a round does -/

variable {reporter : JaegerReporter ε} {spans batch : List SpanRecord} {p p' : Progress}

/-- The message with these spans is serialized into these bytes. -/
def Carries (reporter : JaegerReporter ε) (batch : List SpanRecord) (bytes : List UInt8) : Prop :=
  reporter.serialize (convert batch) = .ok bytes

/-- The spans fit into one packet. -/
def Fits (reporter : JaegerReporter ε) (batch : List SpanRecord) : Prop :=
  ∃ bytes, reporter.Carries batch bytes ∧ bytes.length < maxUdpPackageSize

private theorem too_large_of_not_fits {bytes : List UInt8} (hcarries : reporter.Carries batch bytes)
    (h : ¬ reporter.Fits batch) : maxUdpPackageSize ≤ bytes.length := by
  by_contra hlt
  exact h ⟨bytes, hcarries, by omega⟩

/-- The spans that are neither sent nor skipped yet. -/
def remaining (spans : List SpanRecord) (p : Progress) : List SpanRecord := spans.drop p.sentSpans

/-- The outcomes of a round: a batch is sent, a span is skipped, or the batch size is halved. -/
inductive Advance (reporter : JaegerReporter ε) (spans : List SpanRecord) (p p' : Progress) : Prop where
  | send {packet : Packet} (hcarries : reporter.Carries packet.spans packet.bytes)
      (hsize : packet.bytes.length < maxUdpPackageSize) (hpackets : p'.packets = p.packets ++ [packet])
      (hremaining : remaining spans p = packet.spans ++ remaining spans p')
  | skip {s : SpanRecord} (hfits : ¬ reporter.Fits [s]) (hpackets : p'.packets = p.packets)
      (hremaining : remaining spans p = s :: remaining spans p')
  | halve (hpackets : p'.packets = p.packets) (hremaining : remaining spans p = remaining spans p')

/-- An upper bound for the rounds left: a round takes a span or more off the remaining ones, or it makes the batch
size smaller. -/
def roundsLeft (spans : List SpanRecord) (p : Progress) : Nat := (spans.length - p.sentSpans) + p.spansPerBatch

/-- The agent serializes every message and sends every packet. -/
def Works (agent : Agent ε) : Prop :=
  (∀ msg, ∃ bytes, agent.compactEncode msg = .ok bytes) ∧ ∀ sentBefore bytes, agent.sendTo sentBefore bytes = .ok ()

private theorem round_isOk (hworks : Works reporter.agent) : ∃ p', reporter.round spans p = .ok p' := by
  obtain ⟨bytes, hbytes⟩ : ∃ bytes, reporter.serialize
    (convert ((spans.drop p.sentSpans).take (min p.spansPerBatch (spans.length - p.sentSpans)))) = .ok bytes :=
    hworks.1 _
  unfold round
  simp only [hbytes, hworks.2, bind, Except.bind, pure, Except.pure]
  split_ifs <;> exact ⟨_, rfl⟩

/-- A round that returns. -/
theorem round_advances (hround : reporter.round spans p = .ok p') (hbatch : 0 < p.spansPerBatch)
    (hsent : p.sentSpans < spans.length) :
    0 < p'.spansPerBatch ∧ roundsLeft spans p' < roundsLeft spans p ∧ reporter.Advance spans p p' := by
  unfold round at hround
  simp only at hround
  generalize hsize : min p.spansPerBatch (spans.length - p.sentSpans) = batchSize at hround
  cases hbytes : reporter.serialize (convert ((spans.drop p.sentSpans).take batchSize)) with
  | error err =>
    rw [hbytes] at hround
    cases hround
  | ok bytes =>
    simp only [hbytes, bind, Except.bind, pure, Except.pure] at hround
    by_cases hlarge : maxUdpPackageSize ≤ bytes.length
    · rw [if_pos hlarge] at hround
      by_cases hone : batchSize ≤ 1
      · rw [if_pos hone] at hround
        cases hround
        refine ⟨hbatch, ?_, ?_⟩
        · simp only [roundsLeft]
          omega
        · have hsingle : (spans.drop p.sentSpans).take batchSize = [spans[p.sentSpans]] := by
            have : batchSize = 1 := by omega
            simp only [this, List.drop_eq_getElem_cons hsent, List.take_succ_cons, List.take_zero]
          have hnot : ¬ reporter.Fits [spans[p.sentSpans]] := by
            rintro ⟨bytes', hbytes', hsmall⟩
            rw [← hsingle] at hbytes'
            obtain rfl : bytes = bytes' := Except.ok.inj (hbytes.symm.trans hbytes')
            omega
          exact .skip hnot rfl (List.drop_eq_getElem_cons hsent)
      · rw [if_neg hone] at hround
        cases hround
        have : 1 < p.spansPerBatch := by omega
        refine ⟨?_, ?_, .halve rfl rfl⟩
        · show 0 < p.spansPerBatch / 2
          omega
        · simp only [roundsLeft]
          omega
    · rw [if_neg hlarge] at hround
      cases hsend : reporter.agent.sendTo p.packets.length bytes with
      | error err =>
        rw [hsend] at hround
        cases hround
      | ok sent =>
        simp only [hsend] at hround
        cases hround
        have hcarries : reporter.Carries (Packet.mk ((spans.drop p.sentSpans).take batchSize) bytes).spans bytes :=
          hbytes
        refine ⟨hbatch, ?_, .send hcarries (Nat.lt_of_not_le hlarge) rfl ?_⟩
        · simp only [roundsLeft]
          omega
        · simp only [remaining, ← List.drop_drop, List.take_append_drop]

/-! ### All rounds -/

private theorem rounds_packs (hworks : Works reporter.agent) (fuel : Nat) (hbatch : 0 < p.spansPerBatch)
    (hfuel : roundsLeft spans p < fuel) :
    ∃ packets skipped, reporter.rounds spans fuel p = some (p.packets ++ packets, .ok ()) ∧
      (∀ packet ∈ packets, reporter.Carries packet.spans packet.bytes ∧ packet.bytes.length < maxUdpPackageSize) ∧
      Packs reporter.Fits (remaining spans p) (packets.map (·.spans)) skipped := by
  induction fuel generalizing p with
  | zero => omega
  | succ fuel ih =>
    by_cases hsent : p.sentSpans < spans.length
    · obtain ⟨p', hround⟩ : ∃ p', reporter.round spans p = .ok p' := round_isOk hworks
      obtain ⟨hbatch', hdecreases, hadvance⟩ := round_advances hround hbatch hsent
      obtain ⟨packets, skipped, hrounds, hpackets, hpacks⟩ := ih hbatch' (by omega)
      have hnext : reporter.rounds spans (fuel + 1) p = reporter.rounds spans fuel p' := by
        simp only [rounds, if_pos hsent, hround]
      rw [hnext, hrounds]
      cases hadvance with
      | @send packet hcarries hsize hp hremaining =>
        refine ⟨packet :: packets, skipped, ?_, ?_, ?_⟩
        · rw [hp, List.append_assoc, List.singleton_append]
        · intro q hq
          rcases List.mem_cons.mp hq with rfl | hq
          · exact ⟨hcarries, hsize⟩
          · exact hpackets q hq
        · rw [hremaining]
          exact .batch ⟨packet.bytes, hcarries, hsize⟩ hpacks
      | @skip s hfits hp hremaining =>
        refine ⟨packets, s :: skipped, ?_, hpackets, ?_⟩
        · rw [hp]
        · rw [hremaining]
          exact .skip hfits hpacks
      | halve hp hremaining =>
        refine ⟨packets, skipped, ?_, hpackets, ?_⟩
        · rw [hp]
        · rw [hremaining]
          exact hpacks
    · refine ⟨[], [], ?_, ?_, ?_⟩
      · simp only [rounds, if_neg hsent, List.append_nil]
      · simp
      · have : remaining spans p = [] := List.drop_of_length_le (by omega)
        rw [this]
        exact .nil

/-- More fuel changes nothing. -/
private theorem rounds_of_le {fuel fuel' : Nat} {r : List Packet × Except ε Unit} (hle : fuel ≤ fuel')
    (h : reporter.rounds spans fuel p = some r) : reporter.rounds spans fuel' p = some r := by
  induction fuel generalizing fuel' p with
  | zero => simp [rounds] at h
  | succ fuel ih =>
    obtain ⟨fuel', rfl⟩ : ∃ n, fuel' = n + 1 := ⟨fuel' - 1, by omega⟩
    rw [rounds] at h ⊢
    by_cases hsent : p.sentSpans < spans.length
    · rw [if_pos hsent] at h ⊢
      cases hround : reporter.round spans p with
      | error err => simpa only [hround] using h
      | ok p' =>
        simp only [hround] at h ⊢
        exact ih (by omega) h
    · rw [if_neg hsent] at h ⊢
      exact h

/-- With enough fuel there is a result, also when a call of the agent fails. -/
private theorem rounds_isSome (fuel : Nat) (hbatch : 0 < p.spansPerBatch) (hfuel : roundsLeft spans p < fuel) :
    ∃ r, reporter.rounds spans fuel p = some r := by
  induction fuel generalizing p with
  | zero => omega
  | succ fuel ih =>
    rw [rounds]
    by_cases hsent : p.sentSpans < spans.length
    · rw [if_pos hsent]
      cases hround : reporter.round spans p with
      | error err => exact ⟨_, rfl⟩
      | ok p' =>
        obtain ⟨hbatch', hdecreases, -⟩ := round_advances hround hbatch hsent
        exact ih hbatch' (by omega)
    · rw [if_neg hsent]
      exact ⟨_, rfl⟩

/-- A call of `try_report` ends, in one way. -/
theorem tryReport_ends (reporter : JaegerReporter ε) (spans : List SpanRecord) :
    ∃ r, (∀ fuel, 2 * spans.length < fuel → reporter.tryReport fuel spans = some r) ∧
      ∀ fuel r', reporter.tryReport fuel spans = some r' → r' = r := by
  obtain ⟨r, hr⟩ : ∃ r, reporter.tryReport (2 * spans.length + 1) spans = some r := by
    by_cases hspans : spans.length = 0
    · obtain rfl := List.eq_nil_of_length_eq_zero hspans
      exact ⟨_, rfl⟩
    · refine rounds_isSome _ (Nat.pos_of_ne_zero hspans) ?_
      show spans.length - 0 + spans.length < _
      omega
  refine ⟨r, fun fuel hfuel => rounds_of_le hfuel hr, fun fuel r' hr' => ?_⟩
  have hmax := rounds_of_le (Nat.le_max_left (2 * spans.length + 1) fuel) hr
  rw [tryReport] at hr'
  rw [rounds_of_le (Nat.le_max_right (2 * spans.length + 1) fuel) hr', Option.some.injEq] at hmax
  exact hmax

/-- The loop ends.  Every packet that it sends is shorter than the limit, the batches follow each other in the order
of the spans, and what is not sent are spans that are too large by themselves. -/
theorem tryReport_packs (reporter : JaegerReporter ε) (spans : List SpanRecord)
    (hworks : Works reporter.agent) :
    ∃ packets skipped,
      (∀ fuel, 2 * spans.length < fuel → reporter.tryReport fuel spans = some (packets, .ok ())) ∧
      (∀ packet ∈ packets, reporter.serialize (convert packet.spans) = .ok packet.bytes ∧
        packet.bytes.length < maxUdpPackageSize) ∧
      (packets.flatMap (·.spans)).Sublist spans ∧
      (packets.flatMap (·.spans) ++ skipped).Perm spans ∧
      ∀ s ∈ skipped, ∃ bytes, reporter.serialize (convert [s]) = .ok bytes ∧
        maxUdpPackageSize ≤ bytes.length := by
  by_cases hspans : spans.length = 0
  · obtain rfl := List.eq_nil_of_length_eq_zero hspans
    refine ⟨[], [], ?_, by simp, by simp, by simp, by simp⟩
    intro fuel hfuel
    obtain ⟨n, rfl⟩ : ∃ n, fuel = n + 1 := ⟨fuel - 1, by omega⟩
    rfl
  · let start : Progress := { spansPerBatch := spans.length, sentSpans := 0, packets := [] }
    have hbatch : 0 < start.spansPerBatch := by
      show 0 < spans.length
      omega
    have hfuel : roundsLeft spans start < 2 * spans.length + 1 := by
      show spans.length - 0 + spans.length < _
      omega
    obtain ⟨packets, skipped, hrounds, hpackets, hpacks⟩ := rounds_packs hworks _ hbatch hfuel
    have hsublist := hpacks.flatten_sublist
    have hperm := hpacks.perm
    rw [← List.flatMap_def] at hsublist hperm
    refine ⟨packets, skipped, ?_, hpackets, hsublist, hperm, ?_⟩
    · intro fuel hle
      exact rounds_of_le (by omega) hrounds
    · intro s hs
      obtain ⟨bytes, hbytes⟩ : ∃ bytes, reporter.Carries [s] bytes := hworks.1 _
      exact ⟨bytes, hbytes, too_large_of_not_fits hbytes (hpacks.not_fits_of_mem s hs)⟩

/-- A span of the trace `1` with the name `a`. -/
def oneSpan : SpanRecord where
  traceId := ⟨1⟩
  spanId := ⟨2⟩
  parentId := ⟨0⟩
  beginTimeUnixNs := 0
  durationNs := 0
  name := "a"
  properties := []
  events := []

/-- The message of the service `s` with this span, in the compact protocol. -/
def oneSpanBytes : List UInt8 :=
  -- protocol, version and kind, sequence id, and the method `emitBatch`
  [0x82, 0x81, 0x00, 0x09, 0x65, 0x6d, 0x69, 0x74, 0x42, 0x61, 0x74, 0x63, 0x68,
    -- the arguments, the batch and its process
    0x1c, 0x1c, 0x18, 0x01, 0x73, 0x00,
    -- the list of the spans and its one element
    0x19, 0x1c, 0x16, 0x02, 0x16, 0x00, 0x16, 0x04, 0x16, 0x00, 0x18, 0x01, 0x61, 0x25, 0x02, 0x16, 0x00, 0x16, 0x00,
    0x00, 0x00, 0x00]

end JaegerReporter

/-! ### The compact protocol -/

/-- Seven bits a byte, the lowest first. -/
def varint : Nat → Nat → List UInt8
  | 0, _ => []
  | size + 1, n => if n < 128 then [.ofNat n] else .ofNat (n % 128 + 128) :: varint size (n / 128)

def zigzag (i : Int) : Nat := if 0 ≤ i then 2 * i.toNat else 2 * (-i).toNat - 1

def binaryBytes (s : String) : List UInt8 :=
  let bytes := s.toList.flatMap String.utf8EncodeChar
  varint 5 bytes.length ++ bytes

def Data.typeId : Data → Nat
  | .i32 _ => 5
  | .i64 _ => 6
  | .binary _ => 8
  | .list _ => 9
  | .struct _ => 12

/-- The fields of a structure, behind the field with the number `before`: no number is larger by 16 or more. -/
def fieldBytes (compact : Data → List UInt8) : Nat → List (Nat × Data) → List UInt8
  | _, [] => [0]
  | before, (id, value) :: fields =>
    .ofNat ((id - before) * 16 + value.typeId) :: (compact value ++ fieldBytes compact id fields)

/-- Data that is nested less deep than `depth`; the lists are lists of structures. -/
def Data.compact : Nat → Data → List UInt8
  | 0, _ => []
  | _ + 1, .i32 value => varint 5 (zigzag value.toInt)
  | _ + 1, .i64 value => varint 10 (zigzag value.toInt)
  | _ + 1, .binary value => binaryBytes value
  | depth + 1, .list elements =>
    (if elements.length < 15 then [.ofNat (elements.length * 16 + 12)] else 0xfc :: varint 5 elements.length) ++
      elements.flatMap (Data.compact depth)
  | depth + 1, .struct fields => fieldBytes (Data.compact depth) 0 fields

def Message.compact : Message → List UInt8
  | .oneway methodName sequenceId body =>
    [0x82, 0x81] ++ varint 5 sequenceId.toUInt32.toNat ++ binaryBytes methodName ++ body.compact 9

/-- The values with the numbers from `1`. -/
def numbered (values : List Data) : Data := .struct (values.zipIdx.map fun p => (p.2 + 1, p.1))

private theorem le_length_fieldBytes (compact : Data → List UInt8) {fields : List (Nat × Data)} (field : Nat × Data)
    (h : field ∈ fields) (before : Nat) : (compact field.2).length ≤ (fieldBytes compact before fields).length := by
  induction fields generalizing before with
  | nil => cases h
  | cons f fields ih =>
    rw [fieldBytes, List.length_cons, List.length_append]
    rcases List.mem_cons.1 h with rfl | h
    · omega
    · have hle := ih h f.1
      omega

private theorem le_length_flatMap {α β : Type} {f : α → List β} {as : List α} {a : α} (h : a ∈ as) :
    (f a).length ≤ (as.flatMap f).length := by
  induction as with
  | nil => cases h
  | cons a' as ih =>
    rw [List.flatMap_cons, List.length_append]
    rcases List.mem_cons.1 h with rfl | h
    · omega
    · have hle := ih h
      omega

/-- A message is longer than the name of a span in it. -/
private theorem le_length_message (batch : Batch) {span : JaegerSpan} (h : span ∈ batch.spans) :
    (span.operationName.toList.flatMap String.utf8EncodeChar).length ≤
      ((EmitBatchNotification.mk batch).toMessage numbered).compact.length := by
  have hname : (binaryBytes span.operationName).length ≤ ((span.toData numbered).compact 6).length :=
    le_length_fieldBytes (Data.compact 5) (5, .binary span.operationName) (by simp) 0
  have hspan : ((span.toData numbered).compact 6).length ≤
      ((Data.list (batch.spans.map (JaegerSpan.toData numbered))).compact 7).length := by
    rw [Data.compact, List.length_append]
    have hle := le_length_flatMap (f := Data.compact 6) (List.mem_map_of_mem (f := JaegerSpan.toData numbered) h)
    omega
  have hlist : ((Data.list (batch.spans.map (JaegerSpan.toData numbered))).compact 7).length ≤
      ((batch.toData numbered).compact 8).length :=
    le_length_fieldBytes (Data.compact 7) (2, .list (batch.spans.map (JaegerSpan.toData numbered))) (by simp) 0
  have hbatch : ((batch.toData numbered).compact 8).length ≤ ((numbered [batch.toData numbered]).compact 9).length :=
    le_length_fieldBytes (Data.compact 8) (1, batch.toData numbered) (by simp) 0
  have hbytes : (span.operationName.toList.flatMap String.utf8EncodeChar).length ≤
      (binaryBytes span.operationName).length := by
    simp [binaryBytes]
  rw [EmitBatchNotification.toMessage, Message.compact, List.length_append]
  refine Nat.le_trans (Nat.le_trans hbytes (Nat.le_trans hname (Nat.le_trans hspan ?_))) (Nat.le_add_left ..)
  exact Nat.le_trans hlist hbatch

namespace JaegerReporter

/-- A reporter of the service `s` whose packets all arrive. -/
def compactReporter : JaegerReporter Unit where
  agent := { tuple := numbered, compactEncode := fun msg => .ok msg.compact, sendTo := fun _ _ => .ok () }
  serviceName := "s"

example : compactReporter.report 3 [oneSpan] = some [⟨[oneSpan], oneSpanBytes⟩] := by decide +kernel

/-- A span with a name that fills a packet. -/
def largeSpan : SpanRecord := { oneSpan with name := .ofList (List.replicate 8000 'a') }

def compactBytes (batch : List SpanRecord) : List UInt8 :=
  ((EmitBatchNotification.mk ⟨⟨"s", []⟩, convert batch⟩).toMessage numbered).compact

private theorem too_large_of_mem {batch : List SpanRecord} (h : largeSpan ∈ batch) :
    maxUdpPackageSize ≤ (compactBytes batch).length := by
  have hle := le_length_message ⟨⟨"s", []⟩, convert batch⟩ (List.mem_map_of_mem (f := convertSpan) h)
  refine Nat.le_trans (Nat.le_of_eq ?_) hle
  have hname : (convertSpan largeSpan).operationName.toList = List.replicate 8000 'a' := String.toList_ofList
  rw [hname, List.length_flatMap, List.map_replicate, List.sum_replicate_nat]
  rfl

private theorem round_compact (spans : List SpanRecord) (p : Progress) :
    compactReporter.round spans p =
      if maxUdpPackageSize ≤ (compactBytes ((spans.drop p.sentSpans).take
          (min p.spansPerBatch (spans.length - p.sentSpans)))).length then
        if min p.spansPerBatch (spans.length - p.sentSpans) ≤ 1 then .ok { p with sentSpans := p.sentSpans + 1 }
        else .ok { p with spansPerBatch := p.spansPerBatch / 2 }
      else
        .ok { p with
          sentSpans := p.sentSpans + min p.spansPerBatch (spans.length - p.sentSpans)
          packets := p.packets ++ [⟨(spans.drop p.sentSpans).take (min p.spansPerBatch (spans.length - p.sentSpans)),
            compactBytes ((spans.drop p.sentSpans).take (min p.spansPerBatch (spans.length - p.sentSpans)))⟩] } := by
  have hserialize : ∀ batch, compactReporter.serialize (convert batch) = .ok (compactBytes batch) := fun _ => rfl
  have hsend : ∀ n bytes, compactReporter.agent.sendTo n bytes = .ok () := fun _ _ => rfl
  unfold round
  simp only [hserialize, hsend, bind, Except.bind, pure, Except.pure]

/-- Two of three spans are sent, after the batch size has been halved, and the large one is skipped. -/
private theorem tryReport_large {large : SpanRecord}
    (hlarge : ∀ batch, large ∈ batch → maxUdpPackageSize ≤ (compactBytes batch).length) :
    compactReporter.tryReport 7 [oneSpan, large, oneSpan] =
      some ([⟨[oneSpan], oneSpanBytes⟩, ⟨[oneSpan], oneSpanBytes⟩], .ok ()) := by
  have hone : compactBytes [oneSpan] = oneSpanBytes := by decide +kernel
  have hsmall : ¬ maxUdpPackageSize ≤ oneSpanBytes.length := by decide
  simp [tryReport, rounds, round_compact, hone, hsmall, hlarge]

theorem tryReport_packs_halved :
    ∃ packets skipped,
      (∀ fuel, 6 < fuel → compactReporter.tryReport fuel [oneSpan, largeSpan, oneSpan] = some (packets, .ok ())) ∧
      (∀ packet ∈ packets, compactReporter.serialize (convert packet.spans) = .ok packet.bytes ∧
        packet.bytes.length < maxUdpPackageSize) ∧
      (packets.flatMap (·.spans)).Sublist [oneSpan, largeSpan, oneSpan] ∧
      (packets.flatMap (·.spans) ++ skipped).Perm [oneSpan, largeSpan, oneSpan] ∧
      (∀ s ∈ skipped, ∃ bytes, compactReporter.serialize (convert [s]) = .ok bytes ∧
        maxUdpPackageSize ≤ bytes.length) ∧
      packets = [⟨[oneSpan], oneSpanBytes⟩, ⟨[oneSpan], oneSpanBytes⟩] := by
  obtain ⟨packets, skipped, hends, hpackets, hsublist, hperm, hskipped⟩ :=
    tryReport_packs compactReporter [oneSpan, largeSpan, oneSpan] ⟨fun _ => ⟨_, rfl⟩, fun _ _ => rfl⟩
  refine ⟨packets, skipped, hends, hpackets, hsublist, hperm, hskipped, ?_⟩
  have heq := (hends 7 (by decide)).symm.trans (tryReport_large fun _ => too_large_of_mem)
  simpa using heq

end JaegerReporter

end Fastrace.Jaeger
