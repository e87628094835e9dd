import Fastrace.RtTrace.DescriptorOrder

/-!
# Pairs of slice events

The loop of `PerfettoReporter::consume` over the spans writes two packets for a task, a park, a driver and a terminate
span, and panics at any other: `RuntimeStart` is not implemented, and a descriptor does not belong there.  So a call
whose packets fit the vector writes the descriptors and then one pair of events a span (`SlicePairs`) if the writer
takes them, or it panics before it has written anything; which of the two depends on the types of the spans alone
(`consume_pairs`).
-/

namespace RtTrace

open Fastrace (Anchor)

/-- The packet begins a slice on the track of the span, with its name and at its start. -/
def BeginsSlice (anchor : Anchor) (span : RawSpan) (packet : TracePacket) : Prop :=
  ∃ event, packet.data = some (.trackEvent event) ∧ event.type = some .sliceBegin ∧
    event.nameField = some span.typ.typeNameStr ∧ event.trackUuid = some span.threadId ∧
    packet.timestamp = some (span.start.asUnixNanos anchor)

/-- The packet ends a slice on the track of the span, at its end. -/
def EndsSlice (anchor : Anchor) (span : RawSpan) (packet : TracePacket) : Prop :=
  ∃ event, packet.data = some (.trackEvent event) ∧ event.type = some .sliceEnd ∧
    event.trackUuid = some span.threadId ∧ packet.timestamp = some (span.end.asUnixNanos anchor)

/-- The packets are a begin and an end for each of the spans, in their order. -/
inductive SlicePairs (anchor : Anchor) : List RawSpan → List TracePacket → Prop where
  | nil : SlicePairs anchor [] []
  | cons {span : RawSpan} {spans : List RawSpan} {first second : TracePacket} {rest : List TracePacket}
      (hfirst : BeginsSlice anchor span first) (hsecond : EndsSlice anchor span second)
      (hrest : SlicePairs anchor spans rest) : SlicePairs anchor (span :: spans) (first :: second :: rest)

section Pairs

variable {pid : Int32} {anchor : Anchor}

private theorem beginsSlice_startPacket (span : RawSpan) (packet : TracePacket) :
    BeginsSlice anchor span (startPacket anchor span packet) := ⟨_, rfl, rfl, rfl, rfl, rfl⟩

private theorem endsSlice_endPacket (span : RawSpan) (packet : TracePacket) :
    EndsSlice anchor span (endPacket pid anchor span packet) := ⟨_, rfl, rfl, rfl, rfl⟩

/-- The pooled packets that the events are written over do not matter. -/
private theorem slicePairs_slicePackets {spans : List RawSpan} {packets : List TracePacket}
    (h : 2 * spans.length ≤ packets.length) : SlicePairs anchor spans (slicePackets pid anchor spans packets) := by
  induction spans generalizing packets with
  | nil => exact .nil
  | cons span spans ih =>
    match packets with
    | first :: second :: rest =>
      simp only [List.length_cons] at h
      rw [slicePackets]
      exact .cons (beginsSlice_startPacket span first) (endsSlice_endPacket span second) (ih (by omega))
    | [first] => simp only [List.length_cons, List.length_nil] at h; omega
    | [] => simp only [List.length_cons, List.length_nil] at h; omega

end Pairs

/-! ### A call of `consume` -/

/-- The descriptors in some order and the pairs of the spans. -/
def PairsWritten (pid : Int32) (call : Call) (packets : List TracePacket) : Prop :=
  ∃ heads events, packets = heads ++ events ∧
    (heads.map TracePacket.data).Perm (call.descriptors.map fun d => (descriptorPacket pid d {}).data) ∧
    SlicePairs call.anchor call.spans events

section Claim

variable {T : Type} [DecidableEq T] {pid : Int32}

/-- Of a call that fits the vector: if all spans are of a type that `consume` writes and the writer takes all bytes, it
writes the descriptors and then a pair of events for each span in order, and if some span is of another type, it panics
before it writes. -/
theorem consume_pairs {as : List (T × ReporterOp)} {r : Reporter T}
    (hrun : Steps.run (Reporter.step pid) Reporter.init as = some r) (t : T) (call : Call)
    (hdescriptors : ∀ d ∈ call.descriptors, d.typ.isDescriptor = true)
    (hfits : call.descriptors.length + 2 * call.spans.length ≤ bufSize) :
    ((∀ span ∈ call.spans, span.typ.isSlice = true) → call.written = true →
        ∃ packets, (r.consume pid t call).1 = .ok packets ∧ PairsWritten pid call packets) ∧
      ((∃ span ∈ call.spans, span.typ.isSlice = false) → (r.consume pid t call).1 = .error .panicked) := by
  have hlength : (r.tracePackets t).1.length = bufSize := ((full_of_run hrun).tracePackets t).1
  rw [consume_fst]
  constructor
  · intro hspans hwritten
    have hencoded : encoded pid call _ = _ := encoded_of_encodes ⟨hdescriptors, hspans, hfits⟩ hlength
    rw [Call.unwrap, if_pos hwritten] at hencoded
    refine ⟨_, hencoded, _, _, rfl, ?_, ?_⟩
    · have hperm := (perm_foldl_insertFirst (List.zipWith (descriptorPacket pid) call.descriptors
        (r.tracePackets t).1) []).map TracePacket.data
      rwa [List.append_nil, zipWith_data (by omega)] at hperm
    · exact slicePairs_slicePackets (by rw [List.length_drop]; omega)
  · rintro ⟨span, hspan, htyp⟩
    have hneeded : packetsNeeded call.descriptors call.spans ≤ bufSize :=
      (packetsNeeded_le call.descriptors call.spans).trans hfits
    have htypes : ¬((∀ d ∈ call.descriptors, d.typ.isDescriptor = true) ∧
        ∀ span ∈ call.spans, span.typ.isSlice = true) := by
      intro htypes
      rw [htypes.2 span hspan] at htyp
      cases htyp
    unfold encoded
    rw [fillPackets_eq, if_neg (by omega), if_neg htypes]
    rfl

/-- A descriptor and a span that is written. -/
theorem consume_pairs_small :
    ∃ packets, ((Reporter.init : Reporter Unit).consume 7 () smallCall).1 = .ok packets ∧
      PairsWritten 7 smallCall packets := by
  have hrun : Steps.run (Reporter.step 7) (Reporter.init : Reporter Unit) [] = some Reporter.init := rfl
  refine (consume_pairs hrun () smallCall ?_ (by decide)).1 ?_ rfl
  · intro d hd
    obtain rfl := List.mem_singleton.1 hd
    rfl
  · intro span hspan
    obtain rfl := List.mem_singleton.1 hspan
    rfl

/-- One span of the type `RuntimeStart`. -/
def startCall : Call where
  anchor := smallCall.anchor
  descriptors := []
  spans := [⟨.runtimeStart, 1, ⟨5⟩, ⟨6⟩⟩]

/-- The call fits, and `consume` panics. -/
theorem consume_panics_start :
    (∀ d ∈ startCall.descriptors, d.typ.isDescriptor = true) ∧
      startCall.descriptors.length + 2 * startCall.spans.length ≤ bufSize ∧
      ((Reporter.init : Reporter Unit).consume 7 () startCall).1 = .error .panicked := by
  refine ⟨fun d hd => (by cases hd), by decide, ?_⟩
  rw [consume_fst]
  rfl

end Claim

end RtTrace
