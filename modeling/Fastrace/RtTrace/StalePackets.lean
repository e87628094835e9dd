import Fastrace.RtTrace.PacketBuffer

/-!
# Stale packets

A vector that comes back from the pool still holds the packets of an earlier call, and each shape of a packet leaves
some fields as they are: a descriptor those of an event, an event the trusted uid of a descriptor, and a start event
the trusted pid of an end event.  A call encodes what it would encode from fresh packets just when the slots that it
uses are clean for the shapes that it puts into them (`encoded_fresh_iff`).  After a call with a descriptor a call
without one does not (`stale_trusted_uid`).
-/

namespace RtTrace

open Fastrace (Anchor)

/-- What `consume` comes to when it has pulled `packets`. -/
def encoded (pid : Int32) (call : Call) (packets : List TracePacket) : Except Fault (List TracePacket) :=
  (fillPackets pid call.anchor call.descriptors call.spans packets).bind fun filling =>
    call.unwrap (filling.1.take filling.2)

private theorem Call.unwrap_inj {call : Call} {packets packets' : List TracePacket} :
    call.unwrap packets = call.unwrap packets' ↔ packets = packets' := by
  unfold Call.unwrap
  split <;> simp

theorem consume_fst {T : Type} [DecidableEq T] (pid : Int32) (r : Reporter T) (t : T) (call : Call) :
    (r.consume pid t call).1 = encoded pid call (r.tracePackets t).1 := by
  unfold Reporter.consume encoded
  simp only
  cases fillPackets pid call.anchor call.descriptors call.spans (r.tracePackets t).1 <;> rfl

/-! ### Clean slots -/

/-- The fields that a descriptor does not assign. -/
def TracePacket.CleanDescriptor (packet : TracePacket) : Prop :=
  packet.timestamp = none ∧ packet.trustedPid = none ∧ packet.optionalTrustedPacketSequenceId = none

/-- The fields that a start event does not assign. -/
def TracePacket.CleanStart (packet : TracePacket) : Prop :=
  packet.trustedPid = none ∧ packet.optionalTrustedUid = none

/-- The field that an end event does not assign. -/
def TracePacket.CleanEnd (packet : TracePacket) : Prop := packet.optionalTrustedUid = none

/-- The slots from the first on hold nothing that would show in the events of the spans. -/
def CleanSlices (spans : List RawSpan) (packets : List TracePacket) : Prop :=
  ∀ j < spans.length, (packets.getD (2 * j) {}).CleanStart ∧ (packets.getD (2 * j + 1) {}).CleanEnd

/-- The slots of a call hold nothing that would show in its packets. -/
def Clean (descriptors spans : List RawSpan) (packets : List TracePacket) : Prop :=
  (∀ i < descriptors.length, (packets.getD i {}).CleanDescriptor) ∧
    CleanSlices spans (packets.drop descriptors.length)

section Shapes

variable {pid : Int32} {anchor : Anchor}

private theorem descriptorPacket_eq_fresh (descriptor : RawSpan) (packet : TracePacket) :
    descriptorPacket pid descriptor packet = descriptorPacket pid descriptor {} ↔ packet.CleanDescriptor := by
  unfold descriptorPacket TracePacket.CleanDescriptor
  split <;> simp [appendThreadDescriptor, appendProcessDescriptor]

private theorem startPacket_eq_fresh (span : RawSpan) (packet : TracePacket) :
    startPacket anchor span packet = startPacket anchor span {} ↔ packet.CleanStart := by
  simp [startPacket, TracePacket.CleanStart]

private theorem endPacket_eq_fresh (span : RawSpan) (packet : TracePacket) :
    endPacket pid anchor span packet = endPacket pid anchor span {} ↔ packet.CleanEnd := by
  simp [endPacket, TracePacket.CleanEnd]

private theorem zipWith_eq_fresh {descriptors : List RawSpan} {packets fresh : List TracePacket}
    (hpackets : descriptors.length ≤ packets.length) (hfresh : descriptors.length ≤ fresh.length)
    (hdefault : ∀ packet ∈ fresh, packet = {}) :
    List.zipWith (descriptorPacket pid) descriptors packets = List.zipWith (descriptorPacket pid) descriptors fresh ↔
      ∀ i < descriptors.length, (packets.getD i {}).CleanDescriptor := by
  induction descriptors generalizing packets fresh with
  | nil => simp
  | cons descriptor descriptors ih =>
    match packets, fresh with
    | packet :: packets, new :: fresh =>
      rw [List.forall_mem_cons] at hdefault
      obtain ⟨rfl, hdefault⟩ := hdefault
      simp only [List.length_cons, Nat.add_le_add_iff_right] at hpackets hfresh
      rw [List.zipWith_cons_cons, List.zipWith_cons_cons, List.cons.injEq, ih hpackets hfresh hdefault,
        descriptorPacket_eq_fresh, List.length_cons, Nat.forall_lt_succ_left]
      rfl
    | [], _ => simp at hpackets
    | _ :: _, [] => simp at hfresh

private theorem two_of_length {α : Type} {l : List α} (h : 2 ≤ l.length) : ∃ a b rest, l = a :: b :: rest := by
  rcases l with _ | ⟨a, _ | ⟨b, rest⟩⟩
  · simp at h
  · simp at h
  · exact ⟨a, b, rest, rfl⟩

private theorem slicePackets_eq_fresh {spans : List RawSpan} {packets fresh : List TracePacket}
    (hpackets : 2 * spans.length ≤ packets.length) (hfresh : 2 * spans.length ≤ fresh.length)
    (hdefault : ∀ packet ∈ fresh, packet = {}) :
    slicePackets pid anchor spans packets = slicePackets pid anchor spans fresh ↔ CleanSlices spans packets := by
  induction spans generalizing packets fresh with
  | nil => simp [slicePackets, CleanSlices]
  | cons span spans ih =>
    rw [List.length_cons] at hpackets hfresh
    obtain ⟨first, second, packets, rfl⟩ := two_of_length (by omega : 2 ≤ packets.length)
    obtain ⟨new, new', fresh, rfl⟩ := two_of_length (by omega : 2 ≤ fresh.length)
    rw [List.forall_mem_cons, List.forall_mem_cons] at hdefault
    obtain ⟨rfl, rfl, hdefault⟩ := hdefault
    simp only [List.length_cons] at hpackets hfresh
    rw [slicePackets, slicePackets, List.cons.injEq, List.cons.injEq, ih (by omega) (by omega) hdefault,
      startPacket_eq_fresh, endPacket_eq_fresh]
    unfold CleanSlices
    rw [List.length_cons, Nat.forall_lt_succ_left, ← and_assoc]
    rfl

end Shapes

/-! ### Positions -/

private theorem insertFirst_inj {α : Type} {front front' : List α} {new new' : α} :
    insertFirst front new = insertFirst front' new' ↔ front = front' ∧ new = new' := by
  constructor
  · intro h
    have hlength : front.length = front'.length := by
      have := congrArg List.length h
      simpa using this
    match front, front' with
    | [], [] => cases h; exact ⟨rfl, rfl⟩
    | first :: front, first' :: front' =>
      obtain ⟨hnew, hrest⟩ := List.cons.inj h
      obtain ⟨hfront, hfirst⟩ := List.append_inj' hrest rfl
      cases hfirst
      exact ⟨by rw [hfront], hnew⟩
  · rintro ⟨rfl, rfl⟩
    rfl

/-- Where a packet ends up depends only on the number of packets. -/
private theorem foldl_insertFirst_inj {α : Type} {news news' front front' : List α} (h : news.length = news'.length) :
    news.foldl insertFirst front = news'.foldl insertFirst front' ↔ front = front' ∧ news = news' := by
  induction news generalizing news' front front' with
  | nil =>
    obtain rfl := List.eq_nil_of_length_eq_zero h.symm
    simp
  | cons new news ih =>
    match news' with
    | new' :: news' =>
      rw [List.foldl_cons, List.foldl_cons, ih (by simpa using h), insertFirst_inj, List.cons.injEq, and_assoc]

/-! ### Pooled and fresh packets -/

section Claim

variable {pid : Int32}

/-- A call that encodes packets at all. -/
def Encodes (call : Call) : Prop :=
  (∀ descriptor ∈ call.descriptors, descriptor.typ.isDescriptor = true) ∧
    (∀ span ∈ call.spans, span.typ.isSlice = true) ∧
    call.descriptors.length + 2 * call.spans.length ≤ bufSize

theorem encoded_of_encodes {call : Call} (h : Encodes call) {packets : List TracePacket}
    (hlength : packets.length = bufSize) :
    encoded pid call packets =
      call.unwrap ((List.zipWith (descriptorPacket pid) call.descriptors packets).foldl insertFirst [] ++
        slicePackets pid call.anchor call.spans (packets.drop call.descriptors.length)) := by
  obtain ⟨hdescriptors, hspans, hfits⟩ := h
  unfold encoded
  rw [fillPackets_eq, packetsNeeded_of_types hdescriptors hspans, if_neg (by omega), if_pos ⟨hdescriptors, hspans⟩]
  have hslices : (slicePackets pid call.anchor call.spans (packets.drop call.descriptors.length)).length =
      2 * call.spans.length := length_slicePackets (by rw [List.length_drop]; omega)
  refine congrArg call.unwrap (List.take_left' ?_)
  rw [List.length_append, length_foldl_insertFirst, List.length_nil, List.length_zipWith, hslices]
  omega

private theorem encoded_of_not_encodes {call : Call} (h : ¬Encodes call) {packets : List TracePacket}
    (hlength : packets.length = bufSize) : encoded pid call packets = encoded pid call initPackets := by
  have hinit : initPackets.length = bufSize := List.length_replicate
  unfold encoded
  rw [fillPackets_eq, fillPackets_eq, hlength, hinit]
  split
  · rfl
  · rename_i hneeded
    have htypes : ¬((∀ descriptor ∈ call.descriptors, descriptor.typ.isDescriptor = true) ∧
        ∀ span ∈ call.spans, span.typ.isSlice = true) := by
      intro htypes
      rw [packetsNeeded_of_types htypes.1 htypes.2, not_lt] at hneeded
      exact h ⟨htypes.1, htypes.2, hneeded⟩
    rw [if_neg htypes, if_neg htypes]

/-- After any calls, a call encodes what it would encode from fresh packets just when it encodes nothing or the slots
that it uses in the vector from the pool are clean. -/
theorem encoded_fresh_iff {T : Type} [DecidableEq T] {as : List (T × ReporterOp)} {r : Reporter T}
    (hrun : Steps.run (Reporter.step pid) Reporter.init as = some r) (t : T) (call : Call) :
    (r.consume pid t call).1 = encoded pid call initPackets ↔
      (Encodes call → Clean call.descriptors call.spans (r.tracePackets t).1) := by
  have hlength := ((full_of_run hrun).tracePackets t).1
  rw [consume_fst]
  by_cases hencodes : Encodes call
  · have hinit : initPackets.length = bufSize := List.length_replicate
    have hdefault : ∀ packet ∈ initPackets, packet = {} := fun packet hmem => List.eq_of_mem_replicate hmem
    have hfits := hencodes.2.2
    rw [encoded_of_encodes hencodes hlength, encoded_of_encodes hencodes hinit]
    simp only [hencodes, true_imp_iff, Call.unwrap_inj]
    unfold Clean
    have hheads : List.zipWith (descriptorPacket pid) call.descriptors (r.tracePackets t).1 =
        List.zipWith (descriptorPacket pid) call.descriptors initPackets ↔ _ :=
      zipWith_eq_fresh (by omega) (by omega) hdefault
    have hrests : slicePackets pid call.anchor call.spans ((r.tracePackets t).1.drop call.descriptors.length) =
        slicePackets pid call.anchor call.spans (initPackets.drop call.descriptors.length) ↔ _ :=
      slicePackets_eq_fresh (by rw [List.length_drop]; omega) (by rw [List.length_drop]; omega)
        fun packet hmem => hdefault packet (List.mem_of_mem_drop hmem)
    rw [← hheads, ← hrests]
    have hzip : (List.zipWith (descriptorPacket pid) call.descriptors (r.tracePackets t).1).length =
        (List.zipWith (descriptorPacket pid) call.descriptors initPackets).length := by
      rw [List.length_zipWith, List.length_zipWith, hlength, hinit]
    constructor
    · intro h
      obtain ⟨hdescriptors, hslices⟩ := List.append_inj h (by simp only [length_foldl_insertFirst, hzip])
      exact ⟨((foldl_insertFirst_inj hzip).1 hdescriptors).2, hslices⟩
    · rintro ⟨hdescriptors, hslices⟩
      rw [hdescriptors, hslices]
  · exact ⟨fun _ h => absurd h hencodes, fun _ => encoded_of_not_encodes hencodes hlength⟩

/-- The state after the first call of `smallCall`. -/
def afterSmall : Reporter Unit := (Reporter.init.consume 7 () smallCall).2

theorem encoded_fresh_small : (afterSmall.consume 7 () smallCall).1 = encoded 7 smallCall initPackets := by
  have hrun : Steps.run (Reporter.step 7) Reporter.init [((), .consume smallCall)] = some afterSmall := rfl
  refine (encoded_fresh_iff hrun () smallCall).2 fun _ => ⟨fun i hi => ?_, fun j hj => ?_⟩
  · obtain rfl : i = 0 := Nat.lt_one_iff.1 hi
    exact ⟨rfl, rfl, rfl⟩
  · obtain rfl : j = 0 := Nat.lt_one_iff.1 hj
    exact ⟨⟨rfl, rfl⟩, rfl⟩

/-- The same span again, after the descriptor has been drained. -/
def spanCall : Call := { smallCall with descriptors := [] }

/-- The start event of the second call carries the trusted uid of the descriptor of the first. -/
theorem stale_trusted_uid :
    Steps.run (Reporter.step 7) Reporter.init [((), .consume smallCall)] = some afterSmall ∧
      (afterSmall.consume 7 () spanCall).1 ≠ encoded 7 spanCall initPackets ∧
      ((afterSmall.consume 7 () spanCall).1.toOption.bind (·[0]?)).bind TracePacket.optionalTrustedUid = some 42 := by
  have hstale : ((afterSmall.consume 7 () spanCall).1.toOption.bind (·[0]?)).bind TracePacket.optionalTrustedUid =
      some 42 := rfl
  have hfresh : ((encoded 7 spanCall initPackets).toOption.bind (·[0]?)).bind TracePacket.optionalTrustedUid = none :=
    rfl
  refine ⟨rfl, fun h => ?_, hstale⟩
  rw [h, hfresh] at hstale
  cases hstale

end Claim

end RtTrace
