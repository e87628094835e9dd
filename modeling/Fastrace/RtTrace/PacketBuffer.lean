import Fastrace.RtTrace.ObjectPool
import Fastrace.RtTrace.Perfetto
import Fastrace.RtTrace.Descriptors

/-!
# The packet buffer

`PerfettoReporter::consume` takes a vector of `buf_size()` packets from the pool, fills the first of them, and takes a
second vector while it encodes the first; both go back to the pool.  Nothing compares the number of packets with the
length of the vector.  `consume` stays inside the vector just when the packets that the descriptors and the spans need
are at most `buf_size()` (`consume_in_bounds_iff`), and as the number of descriptors has no bound it does not always
(`consume_overruns`).
-/

namespace RtTrace

open Fastrace (Anchor Instant)

/-! ### The reporter -/

/-- The arguments of a call of `consume` and what it finds. -/
structure Call where
  anchor : Anchor
  /-- What `drain_descriptors` returns. -/
  descriptors : List RawSpan
  spans : List RawSpan
  /-- The writer takes all bytes. -/
  written : Bool := true

/-- `unwrap` of what the writer returns. -/
def Call.unwrap (call : Call) (packets : List TracePacket) : Except Fault (List TracePacket) :=
  if call.written then .ok packets else .error (.unwritten packets)

inductive ReporterOp where
  | consume (call : Call)
  | threadExit

/-- The state behind `PerfettoReporter`. -/
structure Reporter (T : Type) where
  /-- `TRACE_PACKETS_POOL` and `TRACE_PACKETS_PULLER`. -/
  pool : Pool T (List TracePacket)
  /-- The threads whose puller has been destroyed. -/
  exited : List T

namespace Reporter

variable {T : Type}

def init : Reporter T := ⟨Pool.empty, []⟩

def recycle (r : Reporter T) (packets : List TracePacket) : Reporter T := { r with pool := r.pool.recycle packets }

variable [DecidableEq T]

/-- `TracePackets::default`. -/
def tracePackets (r : Reporter T) (t : T) : List TracePacket × Reporter T :=
  if t ∈ r.exited then (initPackets, r)
  else ((r.pool.pull initPackets 2 t).1, { r with pool := (r.pool.pull initPackets 2 t).2 })

/-- `Trace::write` and the drop of the `Trace`; `set_len` shows a prefix of the vector. -/
def write (r : Reporter T) (t : T) (packets : List TracePacket) (written : Bool) : Reporter T :=
  let next := r.tracePackets t
  if written then (next.2.recycle next.1).recycle (packets.take bufSize) else next.2.recycle next.1

/-- The packets written, or the fault that stops the call. -/
def consume (r : Reporter T) (pid : Int32) (t : T) (call : Call) : Except Fault (List TracePacket) × Reporter T :=
  let first := r.tracePackets t
  match fillPackets pid call.anchor call.descriptors call.spans first.1 with
  | .error fault => (.error fault, first.2)
  | .ok (packets, numPackets) => (call.unwrap (packets.take numPackets), first.2.write t packets call.written)

/-- After an overrun there is nothing to say. -/
def step (pid : Int32) (r : Reporter T) : T × ReporterOp → Option (Reporter T)
  | (t, .consume call) =>
    match r.consume pid t call with
    | (.error (.overrun _), _) => none
    | (_, r') => some r'
  | (t, .threadExit) => some { pool := r.pool.dropPuller t, exited := t :: r.exited }

end Reporter

/-! ### What a call fills -/

/-- The packets that the spans need, up to the first span whose type panics. -/
def spanPackets : List RawSpan → Nat
  | [] => 0
  | span :: spans => if span.typ.isSlice then spanPackets spans + 2 else 1

/-- The packets that a call needs, up to the first descriptor or span whose type panics. -/
def packetsNeeded : List RawSpan → List RawSpan → Nat
  | [], spans => spanPackets spans
  | descriptor :: descriptors, spans => if descriptor.typ.isDescriptor then packetsNeeded descriptors spans + 1 else 1

/-- A new first packet; the old one goes to the end. -/
def insertFirst {α : Type} (front : List α) (new : α) : List α :=
  match front with
  | [] => [new]
  | first :: front => new :: front ++ [first]

/-- The events of the spans, written over the packets. -/
def slicePackets (pid : Int32) (anchor : Anchor) : List RawSpan → List TracePacket → List TracePacket
  | span :: spans, first :: second :: rest =>
    startPacket anchor span first :: endPacket pid anchor span second :: slicePackets pid anchor spans rest
  | _, _ => []

private theorem spanPackets_of_isSlice {spans : List RawSpan} (h : ∀ span ∈ spans, span.typ.isSlice = true) :
    spanPackets spans = 2 * spans.length := by
  induction spans with
  | nil => rfl
  | cons span spans ih =>
    rw [List.forall_mem_cons] at h
    rw [spanPackets, if_pos h.1, ih h.2, List.length_cons]
    omega

theorem packetsNeeded_of_types {descriptors spans : List RawSpan}
    (hdescriptors : ∀ descriptor ∈ descriptors, descriptor.typ.isDescriptor = true)
    (hspans : ∀ span ∈ spans, span.typ.isSlice = true) :
    packetsNeeded descriptors spans = descriptors.length + 2 * spans.length := by
  induction descriptors with
  | nil => rw [packetsNeeded, spanPackets_of_isSlice hspans, List.length_nil, Nat.zero_add]
  | cons descriptor descriptors ih =>
    rw [List.forall_mem_cons] at hdescriptors
    rw [packetsNeeded, if_pos hdescriptors.1, ih hdescriptors.2, List.length_cons]
    omega

private theorem spanPackets_le (spans : List RawSpan) : spanPackets spans ≤ 2 * spans.length := by
  induction spans with
  | nil => exact Nat.le_refl 0
  | cons span spans ih =>
    rw [spanPackets, List.length_cons]
    split <;> omega

/-- A call that panics needs no more than it would if it did not. -/
theorem packetsNeeded_le (descriptors spans : List RawSpan) :
    packetsNeeded descriptors spans ≤ descriptors.length + 2 * spans.length := by
  induction descriptors with
  | nil =>
    have hspans := spanPackets_le spans
    rw [packetsNeeded, List.length_nil]
    omega
  | cons descriptor descriptors ih =>
    rw [packetsNeeded, List.length_cons]
    split <;> omega

@[simp] theorem length_insertFirst {α : Type} (front : List α) (new : α) :
    (insertFirst front new).length = front.length + 1 := by
  cases front <;> simp [insertFirst]

@[simp] theorem length_foldl_insertFirst {α : Type} (news front : List α) :
    (news.foldl insertFirst front).length = front.length + news.length := by
  induction news generalizing front with
  | nil => rfl
  | cons new news ih =>
    rw [List.foldl_cons, ih, length_insertFirst, List.length_cons]
    omega

theorem length_slicePackets {pid : Int32} {anchor : Anchor} {spans : List RawSpan} {packets : List TracePacket}
    (h : 2 * spans.length ≤ packets.length) : (slicePackets pid anchor spans packets).length = 2 * spans.length := by
  induction spans generalizing packets with
  | nil => rfl
  | cons span spans ih =>
    match packets with
    | first :: second :: rest =>
      simp only [List.length_cons] at h
      rw [slicePackets, List.length_cons, List.length_cons, ih (by omega), List.length_cons]
      omega
    | [first] => simp only [List.length_cons, List.length_nil] at h; omega
    | [] => simp only [List.length_cons, List.length_nil] at h; omega

section Fill

variable {pid : Int32} {anchor : Anchor}

private theorem swapFirst_set (front rest : List TracePacket) (old new : TracePacket) :
    swapFirst ((front ++ old :: rest).set front.length new) front.length = insertFirst front new ++ rest := by
  rw [List.set_append_right _ _ (le_refl _), Nat.sub_self, List.set_cons_zero]
  cases front with
  | nil => rfl
  | cons first front => simp [swapFirst, insertFirst]

private theorem appendDescriptor_cons (descriptor : RawSpan) (front rest : List TracePacket) (old : TracePacket) :
    appendDescriptor pid (front ++ old :: rest, front.length) descriptor = if descriptor.typ.isDescriptor then
      .ok (insertFirst front (descriptorPacket pid descriptor old) ++ rest, front.length + 1)
      else .error .panicked := by
  have hlt : front.length < (front ++ old :: rest).length := by simp
  have hold : (front ++ old :: rest)[front.length] = old := by simp
  rw [appendDescriptor_of_lt hlt, hold, swapFirst_set]

private theorem appendSpan_cons (span : RawSpan) (front rest : List TracePacket) (first second : TracePacket) :
    appendSpan pid anchor (front ++ first :: second :: rest, front.length) span = if span.typ.isSlice then
      .ok (front ++ [startPacket anchor span first, endPacket pid anchor span second] ++ rest, front.length + 2)
      else .error .panicked := by
  have hlt : front.length < (front ++ first :: second :: rest).length := by simp
  have hlt' : front.length + 1 < (front ++ first :: second :: rest).length := by simp
  have hfirst : (front ++ first :: second :: rest)[front.length] = first := by simp
  have hsecond : (front ++ first :: second :: rest)[front.length + 1] = second := by simp
  rw [appendSpan_of_lt hlt, dif_pos hlt', hfirst, hsecond]
  have hset : ((front ++ first :: second :: rest).set front.length (startPacket anchor span first)).set
      (front.length + 1) (endPacket pid anchor span second) =
      front ++ [startPacket anchor span first, endPacket pid anchor span second] ++ rest := by
    simp [List.set_append_right]
  rw [hset]

private theorem foldlM_appendSpan (spans : List RawSpan) (front rest : List TracePacket) :
    spans.foldlM (appendSpan pid anchor) (front ++ rest, front.length) =
      if rest.length < spanPackets spans then .error (.overrun (front.length + rest.length))
      else if ∀ span ∈ spans, span.typ.isSlice = true then
        .ok (front ++ slicePackets pid anchor spans rest ++ rest.drop (2 * spans.length),
          front.length + 2 * spans.length)
      else .error .panicked := by
  induction spans generalizing front rest with
  | nil => simp [spanPackets, slicePackets]; rfl
  | cons span spans ih =>
    rw [List.foldlM_cons]
    match rest with
    | [] =>
      rw [appendSpan_of_le (by simp)]
      have hneeded : 0 < spanPackets (span :: spans) := by rw [spanPackets]; split <;> omega
      rw [if_pos (by simpa using hneeded)]
      rfl
    | [first] =>
      have hlt : front.length < (front ++ [first]).length := by simp
      rw [appendSpan_of_lt hlt]
      by_cases htype : span.typ.isSlice
      · rw [if_pos htype, dif_neg (by simp), spanPackets, if_pos htype, if_pos (by simp)]
        rfl
      · rw [if_neg htype, spanPackets, if_neg htype, if_neg (by simp),
          if_neg (fun h => htype (h span List.mem_cons_self))]
        rfl
    | first :: second :: rest =>
      rw [appendSpan_cons]
      by_cases htype : span.typ.isSlice
      · rw [if_pos htype]
        change spans.foldlM (appendSpan pid anchor) (_, _) = _
        have hlength : front.length + 2 =
            (front ++ [startPacket anchor span first, endPacket pid anchor span second]).length := by simp
        rw [hlength, ih, spanPackets, if_pos htype, ← hlength]
        simp only [List.length_cons, Nat.add_lt_add_iff_right, List.forall_mem_cons, htype, true_and, slicePackets,
          Nat.mul_add_one, List.drop_succ_cons, List.append_assoc, List.cons_append, List.nil_append,
          Nat.add_right_comm _ 2]
        rfl
      · rw [if_neg htype, spanPackets, if_neg htype, if_neg (by simp),
          if_neg (fun h => htype (h span List.mem_cons_self))]
        rfl

/-- The two loops, when the front of the vector is filled. -/
private theorem foldlM_appendDescriptor (descriptors spans : List RawSpan) (front rest : List TracePacket) :
    ((descriptors.foldlM (appendDescriptor pid) (front ++ rest, front.length)).bind fun filling =>
        spans.foldlM (appendSpan pid anchor) filling) =
      if rest.length < packetsNeeded descriptors spans then .error (.overrun (front.length + rest.length))
      else if (∀ descriptor ∈ descriptors, descriptor.typ.isDescriptor = true) ∧
          ∀ span ∈ spans, span.typ.isSlice = true then
        .ok ((List.zipWith (descriptorPacket pid) descriptors rest).foldl insertFirst front ++
            slicePackets pid anchor spans (rest.drop descriptors.length) ++
            rest.drop (descriptors.length + 2 * spans.length),
          front.length + (descriptors.length + 2 * spans.length))
      else .error .panicked := by
  induction descriptors generalizing front rest with
  | nil =>
    change spans.foldlM (appendSpan pid anchor) (front ++ rest, front.length) = _
    rw [foldlM_appendSpan]
    simp [packetsNeeded]
  | cons descriptor descriptors ih =>
    rw [List.foldlM_cons]
    match rest with
    | [] =>
      rw [appendDescriptor_of_le (by simp)]
      have hneeded : 0 < packetsNeeded (descriptor :: descriptors) spans := by rw [packetsNeeded]; split <;> omega
      rw [if_pos (by simpa using hneeded)]
      rfl
    | old :: rest =>
      rw [appendDescriptor_cons]
      by_cases htype : descriptor.typ.isDescriptor
      · rw [if_pos htype]
        change (descriptors.foldlM (appendDescriptor pid) (_, _)).bind _ = _
        have hlength : front.length + 1 = (insertFirst front (descriptorPacket pid descriptor old)).length := by simp
        rw [hlength, ih, packetsNeeded, if_pos htype, ← hlength]
        simp only [List.length_cons, Nat.add_lt_add_iff_right, List.forall_mem_cons, htype, true_and,
          List.zipWith_cons_cons, List.foldl_cons, List.drop_succ_cons, Nat.add_right_comm _ 1]
        rfl
      · rw [if_neg htype, packetsNeeded, if_neg htype, if_neg (by simp),
          if_neg (fun h => htype (h.1 descriptor List.mem_cons_self))]
        rfl

/-- What `consume` makes of the vector it has pulled. -/
theorem fillPackets_eq (descriptors spans : List RawSpan) (packets : List TracePacket) :
    fillPackets pid anchor descriptors spans packets =
      if packets.length < packetsNeeded descriptors spans then .error (.overrun packets.length)
      else if (∀ descriptor ∈ descriptors, descriptor.typ.isDescriptor = true) ∧
          ∀ span ∈ spans, span.typ.isSlice = true then
        .ok ((List.zipWith (descriptorPacket pid) descriptors packets).foldl insertFirst [] ++
            slicePackets pid anchor spans (packets.drop descriptors.length) ++
            packets.drop (descriptors.length + 2 * spans.length),
          descriptors.length + 2 * spans.length)
      else .error .panicked := by
  have h := @foldlM_appendDescriptor pid anchor descriptors spans [] packets
  simp only [List.nil_append, List.length_nil, Nat.zero_add] at h
  exact h

end Fill

/-! ### The vectors of the pool -/

section Claim

variable {T : Type} [DecidableEq T] {pid : Int32} {t : T} {call : Call}

/-- Every vector in the pool and in the pullers has its full length. -/
def Reporter.Full (r : Reporter T) : Prop := r.pool.All fun packets => packets.length = bufSize

/-- What a call fills it leaves as long as it was. -/
private theorem fillPackets_ok {anchor : Anchor} {descriptors spans : List RawSpan}
    {packets packets' : List TracePacket}
    {n : Nat} (h : fillPackets pid anchor descriptors spans packets = .ok (packets', n)) :
    packetsNeeded descriptors spans = n ∧ n ≤ packets.length ∧ packets'.length = packets.length := by
  rw [fillPackets_eq] at h
  split at h
  · cases h
  · rename_i hneeded
    split at h
    · rename_i htypes
      rw [packetsNeeded_of_types htypes.1 htypes.2] at hneeded ⊢
      cases h
      refine ⟨rfl, by omega, ?_⟩
      simp only [List.length_append, length_foldl_insertFirst, List.length_nil, List.length_zipWith, List.length_drop,
        length_slicePackets (show 2 * spans.length ≤ (packets.drop descriptors.length).length by
          rw [List.length_drop]; omega)]
      omega
    · cases h

theorem Reporter.Full.tracePackets {r : Reporter T} (h : r.Full) (t : T) :
    (r.tracePackets t).1.length = bufSize ∧ (r.tracePackets t).2.Full := by
  unfold Reporter.tracePackets
  split
  · exact ⟨List.length_replicate, h⟩
  · exact Pool.All.pull h List.length_replicate t

private theorem Reporter.Full.write {r : Reporter T} (h : r.Full) (t : T) {packets : List TracePacket}
    (hpackets : packets.length = bufSize) (written : Bool) : (r.write t packets written).Full := by
  obtain ⟨hnext, hpool⟩ := h.tracePackets t
  unfold Reporter.write
  split
  · refine Pool.All.recycle (Pool.All.recycle hpool hnext) ?_
    rw [List.length_take, hpackets, Nat.min_self]
  · exact Pool.All.recycle hpool hnext

theorem Reporter.Full.consume {r : Reporter T} (h : r.Full) (pid : Int32) (t : T) (call : Call) :
    (r.consume pid t call).2.Full := by
  obtain ⟨hfirst, hpool⟩ := h.tracePackets t
  unfold Reporter.consume
  simp only
  split
  · exact hpool
  · rename_i packets n hfill
    refine hpool.write t ?_ call.written
    rw [(fillPackets_ok hfill).2.2, hfirst]

theorem Reporter.Full.step {r r' : Reporter T} (h : r.Full) {a : T × ReporterOp} (hr : r.step pid a = some r') :
    r'.Full := by
  obtain ⟨t, call | -⟩ := a
  · have hfull := h.consume pid t call
    unfold Reporter.step at hr
    simp only at hr
    split at hr
    · cases hr
    · rename_i hconsume
      cases hr
      rw [hconsume] at hfull
      exact hfull
  · cases hr
    exact Pool.All.dropPuller h t

theorem full_of_run {as : List (T × ReporterOp)} {r : Reporter T}
    (hrun : Steps.run (Reporter.step pid) Reporter.init as = some r) : r.Full := by
  have hinit : (Reporter.init : Reporter T).Full := Pool.All.empty
  exact Steps.run_induction (fun _ _ _ h hr => h.step hr) hinit hrun

/-- The call passes no index to `get_unchecked_mut` that is out of bounds and writes no more packets than a vector
has, and all vectors have their full length after it. -/
structure InBounds (pid : Int32) (r : Reporter T) (t : T) (call : Call) : Prop where
  indices : ∀ index, fillPackets pid call.anchor call.descriptors call.spans (r.tracePackets t).1 ≠
    .error (.overrun index)
  numPackets : ∀ packets n, fillPackets pid call.anchor call.descriptors call.spans (r.tracePackets t).1 =
    .ok (packets, n) → n ≤ bufSize
  returned : (r.consume pid t call).2.Full

/-- A call is in bounds just when a vector holds the packets that it needs. -/
theorem consume_in_bounds_iff {as : List (T × ReporterOp)} {r : Reporter T}
    (hrun : Steps.run (Reporter.step pid) Reporter.init as = some r) (t : T) (call : Call) :
    InBounds pid r t call ↔ packetsNeeded call.descriptors call.spans ≤ bufSize := by
  have hfull := full_of_run hrun
  obtain ⟨hlength, -⟩ := hfull.tracePackets t
  constructor
  · intro h
    by_contra hneeded
    refine h.indices bufSize ?_
    rw [fillPackets_eq, hlength, if_pos (Nat.lt_of_not_le hneeded)]
  · intro hneeded
    refine ⟨fun index hfill => ?_, fun packets n hfill => ?_, hfull.consume pid t call⟩
    · rw [fillPackets_eq, hlength, if_neg (Nat.not_lt.2 hneeded)] at hfill
      split at hfill <;> cases hfill
    · rw [← hlength]
      exact (fillPackets_ok hfill).2.1

end Claim

/-- A call with one descriptor and one span, made twice. -/
def smallCall : Call where
  anchor := fun now => now.ticks
  descriptors := [⟨.processDiscriptor, 1, ⟨0⟩, ⟨0⟩⟩]
  spans := [⟨.runtimePark, 1, ⟨5⟩, ⟨6⟩⟩]

theorem consume_in_bounds_small :
    InBounds 7 (Reporter.init.consume 7 () smallCall).2 () smallCall ∧
      packetsNeeded smallCall.descriptors smallCall.spans ≤ bufSize := by
  have hneeded : packetsNeeded smallCall.descriptors smallCall.spans ≤ bufSize := by decide
  have hrun : Steps.run (Reporter.step 7) Reporter.init [((), .consume smallCall)] =
      some (Reporter.init.consume 7 () smallCall).2 := rfl
  exact ⟨(consume_in_bounds_iff hrun () smallCall).2 hneeded, hneeded⟩

/-! ### Many threads -/

section Crowd

def crowdInfo (i : Nat) : ThreadInfo := ⟨UInt64.ofNat i, none⟩

/-- The thread `0` starts the tracing, and each of the threads from `1` to `n` creates a span. -/
def crowd : Nat → List (Nat × Op)
  | 0 => [(0, .threadStart), (0, .start)]
  | n + 1 => crowd n ++ [(n + 1, .threadStart), (n + 1, .span (n + 1) .runtimePark ⟨5⟩)]

structure Crowded (n : Nat) (w : World Nat) : Prop where
  shardNum : w.shardNum = 1
  enabled : w.enabled = true
  alive : ∀ u, u ∈ w.alive ↔ u ≤ n
  exited : w.exited = []
  initialized : ∀ u, w.initialized u = true ↔ 0 < u ∧ u ≤ n
  spans : ∀ v, n < v → w.spans v = none
  queues : w.queues = [{}]
  receivers : w.receivers = []
  commandBuf : w.commandBuf = none
  undrained : ∀ d, w.descriptors.get? d = some false ↔ ∃ u, 0 < u ∧ u ≤ n ∧ d = threadDescriptor (crowdInfo u)
  absent : ∀ d, w.descriptors.get? d = some false ∨ w.descriptors.get? d = none
  flushedOnce : w.flushedOnce = false
  lock : w.lock = none
  phase : w.phase = fun _ => .idle
  consumed : w.consumed = []

private theorem crowdInfo_ne {n u : Nat} (hn : n < 2 ^ 64) (hu : u < n) : (crowdInfo u).id ≠ (crowdInfo n).id := by
  intro h
  have hval := congrArg UInt64.toNat h
  rw [crowdInfo, crowdInfo, UInt64.toNat_ofNat_of_lt' (hu.trans hn), UInt64.toNat_ofNat_of_lt' hn] at hval
  omega

private theorem threadDescriptor_ne {n u : Nat} (hn : n < 2 ^ 64) (hu : u < n) :
    threadDescriptor (crowdInfo n) ≠ threadDescriptor (crowdInfo u) :=
  fun h => crowdInfo_ne hn hu (congrArg RawSpan.threadId h).symm

/-- One more thread starts and creates a span. -/
private theorem Crowded.succ {n : Nat} {w : World Nat} (h : Crowded n w) (hn : n + 1 < 2 ^ 64) :
    ∃ w', Steps.run (World.step crowdInfo) w [(n + 1, .threadStart), (n + 1, .span (n + 1) .runtimePark ⟨5⟩)] =
      some w' ∧ Crowded (n + 1) w' := by
  have hstart : n + 1 ∉ w.alive ∧ n + 1 ∉ w.exited ∧ ∀ u ∈ w.alive, (crowdInfo u).id ≠ (crowdInfo (n + 1)).id := by
    refine ⟨fun hmem => ?_, by rw [h.exited]; exact List.not_mem_nil, fun u hu => ?_⟩
    · rw [h.alive] at hmem
      omega
    · rw [h.alive] at hu
      exact crowdInfo_ne hn (by omega)
  have hfree : World.free { w with alive := (n + 1) :: w.alive } (n + 1) = true := by
    simp [World.free, h.phase]
  have hinit : w.initialized (n + 1) = false := by
    rw [Bool.eq_false_iff, Ne, h.initialized]
    omega
  have habsent : w.descriptors.get? (threadDescriptor (crowdInfo (n + 1))) = none := by
    refine (h.absent _).resolve_left fun hfalse => ?_
    obtain ⟨u, hpos, hu, heq⟩ := (h.undrained _).1 hfalse
    exact threadDescriptor_ne hn (by omega) heq
  have hadd : addDescriptor w.descriptors (threadDescriptor (crowdInfo (n + 1))) =
      some (w.descriptors.insert (threadDescriptor (crowdInfo (n + 1))) false) := by
    simp [addDescriptor, habsent]
  have hspan : World.newSpan { w with alive := (n + 1) :: w.alive } crowdInfo (n + 1) (n + 1) .runtimePark ⟨5⟩ =
      some { w with
        alive := (n + 1) :: w.alive
        descriptors := w.descriptors.insert (threadDescriptor (crowdInfo (n + 1))) false
        initialized := Function.update w.initialized (n + 1) true
        spans := Function.update w.spans (n + 1) (some
          ⟨some ⟨.runtimePark, (crowdInfo (n + 1)).id, ⟨5⟩, Instant.zero⟩, (crowdInfo (n + 1)).id.toNat % w.shardNum⟩)
        } := by
    simp only [World.newSpan, h.spans (n + 1) (by omega), Option.isSome_none, h.enabled, hinit, Bool.false_eq_true,
      if_false, if_true, hadd, Option.map_some]
  have hrun : Steps.run (World.step crowdInfo) w
      [(n + 1, .threadStart), (n + 1, .span (n + 1) .runtimePark ⟨5⟩)] =
      World.newSpan { w with alive := (n + 1) :: w.alive } crowdInfo (n + 1) (n + 1) .runtimePark ⟨5⟩ := by
    simp only [Steps.run, World.step, if_pos hstart, Option.bind_some, hfree, if_true, Option.bind_fun_some]
  refine ⟨_, hrun.trans hspan, ?_⟩
  refine ⟨h.shardNum, h.enabled, fun u => ?_, h.exited, fun u => ?_, fun v hv => ?_, h.queues, h.receivers,
    h.commandBuf, fun d => ?_, fun d => ?_, h.flushedOnce, h.lock, h.phase, h.consumed⟩
  · simp only [List.mem_cons, h.alive]
    omega
  · by_cases hu : u = n + 1
    · simp [hu]
    · simp only [Function.update_of_ne hu, h.initialized]
      omega
  · simp only [Function.update_of_ne (show v ≠ n + 1 by omega)]
    exact h.spans v (by omega)
  · rw [HashMap.get?_insert]
    by_cases hd : d = threadDescriptor (crowdInfo (n + 1))
    · simp only [hd, if_true, true_iff]
      exact ⟨n + 1, by omega, le_refl _, rfl⟩
    · rw [if_neg hd, h.undrained]
      constructor
      · rintro ⟨u, hpos, hu, rfl⟩
        exact ⟨u, hpos, by omega, rfl⟩
      · rintro ⟨u, hpos, hu, rfl⟩
        refine ⟨u, hpos, Nat.le_of_lt_succ (lt_of_le_of_ne hu fun heq => hd (by rw [heq])), rfl⟩
  · rw [HashMap.get?_insert]
    split
    · exact Or.inl rfl
    · exact h.absent d

private theorem crowded_of_run {n : Nat} (hn : n < 2 ^ 64) :
    ∃ w, Steps.run (World.step crowdInfo) (World.init 1 Nat.one_pos) (crowd n) = some w ∧ Crowded n w := by
  induction n with
  | zero =>
    refine ⟨_, rfl, ⟨rfl, rfl, fun u => ?_, rfl, fun u => ?_, fun v _ => rfl, rfl, rfl, rfl, fun d => ?_,
      fun d => ?_, rfl, rfl, rfl, rfl⟩⟩
    · change u ∈ [0] ↔ u ≤ 0
      rw [List.mem_singleton, Nat.le_zero]
    · exact ⟨fun hu => (by cases hu), fun hu => by omega⟩
    · refine ⟨fun hd => (by cases hd), ?_⟩
      rintro ⟨u, hpos, hu, -⟩
      omega
    · exact Or.inr rfl
  | succ n ih =>
    obtain ⟨w, hrun, h⟩ := ih (by omega)
    obtain ⟨w', hrun', h'⟩ := h.succ hn
    exact ⟨w', by rw [crowd, Steps.run_append, hrun, Option.bind_some, hrun'], h'⟩

/-- The main thread flushes; the consumer gets one empty batch and all descriptors. -/
theorem Crowded.flush {n : Nat} {w : World Nat} (h : Crowded n w) :
    ∃ w', Steps.run (World.step crowdInfo) w ((0, .flush) :: nexts 0 8) = some w' ∧
      w'.consumed = [((drainDescriptors .stored
        (w.descriptors.insert (processDescriptor (crowdInfo 0)) false)).1, [])] := by
  have hadd : addDescriptor w.descriptors (processDescriptor (crowdInfo 0)) =
      some (w.descriptors.insert (processDescriptor (crowdInfo 0)) false) := by
    have habsent : w.descriptors.get? (processDescriptor (crowdInfo 0)) = none := by
      refine (h.absent _).resolve_left fun hfalse => ?_
      obtain ⟨u, -, -, heq⟩ := (h.undrained _).1 hfalse
      cases congrArg RawSpan.typ heq
    simp [addDescriptor, habsent]
  have halive := (h.alive 0).2 (Nat.zero_le n)
  obtain ⟨shardNum, enabled, -, exited, -, -, queues, receivers, commandBuf, -, -, flushedOnce, lock, phase,
    consumed⟩ := h
  obtain ⟨shardNum', hpos, enabled', alive, exited', initialized, spans, queues', receivers', channel, commandBuf',
    descriptors, flushedOnce', lock', phase', consumed', history⟩ := w
  simp only at *
  subst shardNum enabled exited queues receivers commandBuf flushedOnce lock phase consumed
  rw [Steps.run, World.step, if_pos (by simp [World.free, halive]), Option.bind_some,
    show (8 : Nat) = 6 + 2 from rfl, nexts, List.replicate_add, Steps.run_append]
  have hcollect : ∃ w₁ buf, Steps.run (World.step crowdInfo) (World.setPhase ⟨1, hpos, false, alive, [], initialized,
      spans, [{}], [], channel, none, descriptors, false, none, fun _ => .idle, [], history⟩ 0 (.flushing 0))
      (List.replicate 6 (0, .next .stored)) = some w₁ ∧ w₁.descriptors = descriptors ∧ w₁.phase 0 = .collected true ∧
      w₁.flushedOnce = false ∧ w₁.commandBuf = some buf ∧ buf.drain.1.map Command.spans = [[]] ∧ w₁.consumed = [] :=
    ⟨_, _, rfl, rfl, rfl, rfl, rfl, rfl, rfl⟩
  obtain ⟨w₁, buf, hrun, rfl, hphase, hflushed, hbuf, hbatches, hconsumed⟩ := hcollect
  rw [hrun, Option.bind_some]
  simp [Steps.run, World.step, World.next, hphase, World.drain, hflushed, hadd, hbuf, World.setPhase, hbatches,
    hconsumed, List.replicate]

/-- The flush drains a descriptor of every thread. -/
private theorem Crowded.needed {n : Nat} {w : World Nat} (h : Crowded n w) (hn : n < 2 ^ 64) :
    n ≤ packetsNeeded (drainDescriptors .stored
      (w.descriptors.insert (processDescriptor (crowdInfo 0)) false)).1 [] := by
  have hmem : ∀ d, d ∈ (drainDescriptors .stored (w.descriptors.insert (processDescriptor (crowdInfo 0)) false)).1 ↔
      d = processDescriptor (crowdInfo 0) ∨ ∃ u, 0 < u ∧ u ≤ n ∧ d = threadDescriptor (crowdInfo u) := by
    intro d
    rw [mem_drained, HashMap.get?_insert]
    by_cases hd : d = processDescriptor (crowdInfo 0)
    · simp only [hd, if_true, true_or]
    · rw [if_neg hd, h.undrained]
      simp only [hd, false_or]
  rw [packetsNeeded_of_types (fun d hd => ?_) (fun span hspan => by cases hspan)]
  · have hnodup : ((List.range n).map fun i => threadDescriptor (crowdInfo (i + 1))).Nodup := by
      refine List.Nodup.map_on (fun i hi j hj heq => ?_) List.nodup_range
      rw [List.mem_range] at hi hj
      rcases Nat.lt_trichotomy i j with hlt | rfl | hlt
      · exact absurd heq.symm (threadDescriptor_ne (by omega) (by omega))
      · rfl
      · exact absurd heq (threadDescriptor_ne (by omega) (by omega))
    have hsubset : ((List.range n).map fun i => threadDescriptor (crowdInfo (i + 1))) ⊆
        (drainDescriptors .stored (w.descriptors.insert (processDescriptor (crowdInfo 0)) false)).1 := by
      intro d hd
      obtain ⟨i, hi, rfl⟩ := List.mem_map.1 hd
      rw [List.mem_range] at hi
      exact (hmem _).2 (Or.inr ⟨i + 1, by omega, by omega, rfl⟩)
    have hlength := (List.subperm_of_subset hnodup hsubset).length_le
    rw [List.length_map, List.length_range] at hlength
    omega
  · rcases (hmem d).1 hd with rfl | ⟨u, -, -, rfl⟩ <;> rfl

/-- With more than `buf_size()` threads the first call of `consume` leaves the vector. -/
private theorem crowd_overruns {n : Nat} (hn : bufSize < n) (hn' : n < 2 ^ 64) :
    ∃ w, ∃ call : Call,
      Steps.run (World.step crowdInfo) (World.init 1 Nat.one_pos) (crowd n ++ (0, .flush) :: nexts 0 8) = some w ∧
      w.consumed = [(call.descriptors, call.spans)] ∧ call.spans.length ≤ defaultBatchSize ∧
      ∀ pid, fillPackets pid call.anchor call.descriptors call.spans
        ((Reporter.init : Reporter Nat).tracePackets 0).1 = .error (.overrun bufSize) := by
  obtain ⟨w, hrun, h⟩ := crowded_of_run hn'
  obtain ⟨w', hrun', hconsumed⟩ := h.flush
  refine ⟨w', ⟨smallCall.anchor, _, [], true⟩, ?_, hconsumed, Nat.zero_le _, fun pid => ?_⟩
  · rw [Steps.run_append, hrun, Option.bind_some, hrun']
  · have hfull : (Reporter.init : Reporter Nat).Full := Pool.All.empty
    rw [fillPackets_eq, (hfull.tracePackets 0).1, if_pos (hn.trans_le (h.needed hn'))]

/-- Some run with 4097 threads has `consume` pass `buf_size()` to `get_unchecked_mut`. -/
theorem consume_overruns :
    ∃ w, ∃ call : Call,
      Steps.run (World.step crowdInfo) (World.init 1 Nat.one_pos) (crowd 4097 ++ (0, .flush) :: nexts 0 8) = some w ∧
      w.consumed = [(call.descriptors, call.spans)] ∧ call.spans.length ≤ defaultBatchSize ∧
      ¬InBounds 7 (Reporter.init : Reporter Nat) 0 call := by
  obtain ⟨w, call, hrun, hconsumed, hspans, hfill⟩ := crowd_overruns (n := 4097) (by decide) (by decide)
  exact ⟨w, call, hrun, hconsumed, hspans, fun h => h.indices bufSize (hfill 7)⟩

end Crowd

end RtTrace
