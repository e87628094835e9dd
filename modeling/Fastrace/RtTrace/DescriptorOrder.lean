import Fastrace.DefBeforeUse
import Fastrace.RtTrace.StalePackets

/-!
# Descriptors before events

A descriptor is added when its thread creates its first span and waits in a map until some call of `consume` drains
it; the span goes its own way, through a shard, a channel and the ring buffer.  When a call gets the span, the
descriptor has been drained by that call or by one before it (`Announced`), and within a call the packets of the
descriptors come first.  So among all packets written a track is described before its first event
(`described_before_events`).
-/

namespace RtTrace

open Fastrace (Anchor)
open DefBeforeUse (Closed Expands defined)

variable {T : Type}

/-- A descriptor of a thread with this id has been added. -/
def World.Describes (w : World T) (id : UInt64) : Prop :=
  ∃ d, (w.descriptors.get? d).isSome = true ∧ (∃ name, d.typ = .threadDiscriptor name) ∧ d.threadId = id

/-- The tracks that the descriptors of a call of `consume` describe. -/
def describedTracks (call : List RawSpan × List RawSpan) : Set (Option UInt64) :=
  {uuid | ∃ d ∈ call.1, (∃ name, d.typ = .threadDiscriptor name) ∧ some d.threadId = uuid}

/-- The tracks of the spans of a call. -/
def spanTracks (call : List RawSpan × List RawSpan) : Set (Option UInt64) :=
  {uuid | ∃ span ∈ call.2, some span.threadId = uuid}

/-- All descriptors drained so far. -/
def World.drained (w : World T) : List RawSpan := w.consumed.flatMap Prod.fst

/-! ### Where spans and descriptors come from -/

/-- Descriptors may have been added, and none has been drained. -/
def Adds (m m' : HashMap RawSpan Bool) : Prop :=
  ∀ d, ((m.get? d).isSome = true → (m'.get? d).isSome = true) ∧ (m'.get? d = some true ↔ m.get? d = some true)

private theorem Adds.refl (m : HashMap RawSpan Bool) : Adds m m := fun _ => ⟨id, Iff.rfl⟩

private theorem adds_of_addDescriptor {m m' : HashMap RawSpan Bool} {d : RawSpan} {known : Bool}
    (h : (if known then some m else addDescriptor m d) = some m') : Adds m m' := by
  intro d'
  split at h
  · cases h
    exact ⟨id, Iff.rfl⟩
  · obtain ⟨hnone, rfl⟩ := addDescriptor_eq_some h
    rw [HashMap.get?_insert]
    by_cases hd : d' = d
    · subst hd
      simp [hnone]
    · simp [hd]

section Step

variable {info : T → ThreadInfo} {w w' : World T} {t : T}

/-- What a step does to the spans that are on their way and to the descriptors. -/
structure Spreads (info : T → ThreadInfo) (w : World T) (t : T) (w' : World T) : Prop where
  created : ∀ h span raw, w'.spans h = some span → span.inner = some raw →
    w.spans h = some span ∨ raw.threadId = (info t).id ∧ w'.initialized t = true
  pushing : ∀ u span, (w'.phase u).toPush = some span →
    (w.phase u).toPush = some span ∨
      ∃ h old raw, w.spans h = some old ∧ old.inner = some raw ∧ raw.threadId = span.threadId
  pushed : ∀ span ∈ w'.history.pushed, span ∈ w.history.pushed ∨ (w.phase t).toPush = some span
  descriptors : w'.consumed = w.consumed ∧ Adds w.descriptors w'.descriptors ∨
    ∃ order batch batches, w.phase t = .delivering (batch :: batches) ∧
      w'.descriptors = (drainDescriptors order w.descriptors).2 ∧
      w'.consumed = w.consumed ++ [((drainDescriptors order w.descriptors).1, batch)]

/-- A call of `consume` keeps the descriptors as well. -/
theorem Spreads.keeps (h : Spreads info w t w') (d : RawSpan) (hd : (w.descriptors.get? d).isSome = true) :
    (w'.descriptors.get? d).isSome = true := by
  rcases h.descriptors with ⟨-, hadds⟩ | ⟨order, -, -, -, hdrained, -⟩
  · exact (hadds d).1 hd
  · rw [hdrained]
    exact get?_drained_isSome.2 hd

/-- A step that creates, drops and pushes no span and calls no `consume`. -/
private theorem spreads_quiet
    (hphase : ∀ u span, (w'.phase u).toPush = some span → (w.phase u).toPush = some span)
    (hspans : w'.spans = w.spans) (hpushed : w'.history.pushed = w.history.pushed)
    (hconsumed : w'.consumed = w.consumed) (hadds : Adds w.descriptors w'.descriptors) : Spreads info w t w' := by
  constructor
  case created =>
    intro h span raw hspan _
    rw [hspans] at hspan
    exact Or.inl hspan
  case pushing => exact fun u span hu => Or.inl (hphase u span hu)
  case pushed =>
    intro span hspan
    rw [hpushed] at hspan
    exact Or.inl hspan
  case descriptors => exact Or.inl ⟨hconsumed, hadds⟩

/-- A span is created: it is a no-op, or the thread has a descriptor. -/
private theorem spreads_span {v : Var} {span : Span} (hspans : w'.spans = Function.update w.spans v (some span))
    (hraw : ∀ raw, span.inner = some raw → raw.threadId = (info t).id ∧ w'.initialized t = true)
    (hphase : w'.phase = w.phase) (hpushed : w'.history.pushed = w.history.pushed)
    (hconsumed : w'.consumed = w.consumed) (hadds : Adds w.descriptors w'.descriptors) : Spreads info w t w' := by
  constructor
  case created =>
    intro h old raw hold hinner
    rw [hspans, Function.update_apply] at hold
    split at hold
    · cases hold
      exact Or.inr (hraw raw hinner)
    · exact Or.inl hold
  case pushing =>
    intro u old hu
    rw [hphase] at hu
    exact Or.inl hu
  case pushed =>
    intro old hold
    rw [hpushed] at hold
    exact Or.inl hold
  case descriptors => exact Or.inl ⟨hconsumed, hadds⟩

/-- A span is dropped: its drop pushes it, or does nothing. -/
private theorem spreads_drop {v : Var} {span : Span} (hspan : w.spans v = some span)
    (hspans : w'.spans = Function.update w.spans v none)
    (hphase : ∀ u pushing, (w'.phase u).toPush = some pushing → (w.phase u).toPush = some pushing ∨
      ∃ raw, span.inner = some raw ∧ raw.threadId = pushing.threadId)
    (hpushed : w'.history.pushed = w.history.pushed) (hconsumed : w'.consumed = w.consumed)
    (hdescriptors : w'.descriptors = w.descriptors) : Spreads info w t w' := by
  constructor
  case created =>
    intro h old raw hold _
    rw [hspans, Function.update_apply] at hold
    split at hold
    · cases hold
    · exact Or.inl hold
  case pushing =>
    intro u pushing hu
    refine (hphase u pushing hu).imp_right ?_
    rintro ⟨raw, hraw, hid⟩
    exact ⟨v, span, raw, hspan, hraw, hid⟩
  case pushed =>
    intro old hold
    rw [hpushed] at hold
    exact Or.inl hold
  case descriptors =>
    rw [hdescriptors]
    exact Or.inl ⟨hconsumed, Adds.refl _⟩

variable [DecidableEq T]

/-- The span of the phase joins those that have been pushed. -/
private theorem spreads_push {span : RawSpan} (hpushing : (w.phase t).toPush = some span)
    (hphase : w'.phase = Function.update w.phase t .idle) (hspans : w'.spans = w.spans)
    (hpushed : w'.history.pushed = w.history.pushed ++ [span]) (hconsumed : w'.consumed = w.consumed)
    (hdescriptors : w'.descriptors = w.descriptors) : Spreads info w t w' := by
  constructor
  case created =>
    intro h old raw hold _
    rw [hspans] at hold
    exact Or.inl hold
  case pushing =>
    intro u other hu
    rw [hphase] at hu
    exact Or.inl (toPush_update rfl hu)
  case pushed =>
    intro other hother
    rw [hpushed] at hother
    rcases List.mem_append.1 hother with hold | hnew
    · exact Or.inl hold
    · exact Or.inr (List.mem_singleton.1 hnew ▸ hpushing)
  case descriptors =>
    rw [hdescriptors]
    exact Or.inl ⟨hconsumed, Adds.refl _⟩

theorem step_spreads {a : T × Op} (hw : w.step info a = some w') : Spreads info w a.1 w' := by
  obtain ⟨t, op⟩ := a
  have hpush : ∀ {p : Phase}, p.toPush = none → ∀ u span, (Function.update w.phase t p u).toPush = some span →
      (w.phase u).toPush = some span := fun hp u span hu => toPush_update hp hu
  cases step_transition hw with
  | threadStart | threadExit | start | stop | receive =>
    exact spreads_quiet (fun _ _ hu => hu) rfl rfl rfl (Adds.refl _)
  | span hfree hspan henabled hadd =>
    refine spreads_span rfl ?_ rfl rfl rfl (adds_of_addDescriptor hadd)
    rintro raw ⟨⟩
    exact ⟨rfl, Function.update_self ..⟩
  | noopSpan => exact spreads_span rfl (fun raw hraw => by cases hraw) rfl rfl rfl (Adds.refl _)
  | dropSpan hfree hspan henabled hraw =>
    refine spreads_drop hspan rfl (fun u pushing hu => ?_) rfl rfl rfl
    change (Function.update w.phase t _ u).toPush = _ at hu
    rw [Function.update_apply] at hu
    split at hu
    · cases hu
      exact Or.inr ⟨_, hraw, rfl⟩
    · exact Or.inl hu
  | forgetSpan hfree hspan hnoop => exact spreads_drop hspan rfl (fun _ _ hu => Or.inl hu) rfl rfl rfl
  | push hphase hqueue hnone => exact spreads_push (by rw [hphase]; rfl) rfl rfl rfl rfl rfl
  | pushBatch hphase hqueue hcommand hsend =>
    have hkeeps := sendCommand_keeps hsend
    exact spreads_push (by rw [hphase]; rfl) hkeeps.phase hkeeps.spans hkeeps.pushed hkeeps.consumed
      hkeeps.descriptors
  | flushShard hphase hindex hqueue hsend =>
    have hkeeps := sendCommand_keeps hsend
    refine spreads_quiet ?_ hkeeps.spans hkeeps.pushed hkeeps.consumed (hkeeps.descriptors ▸ Adds.refl _)
    rw [hkeeps.phase]
    exact hpush rfl
  | drainNothing hphase hadd hbuf => exact spreads_quiet (hpush rfl) rfl rfl rfl (adds_of_addDescriptor hadd)
  | drain hphase hadd hbuf => exact spreads_quiet (hpush rfl) rfl rfl rfl (adds_of_addDescriptor hadd)
  | consume hphase =>
    exact ⟨fun h span raw hspan _ => Or.inl hspan, fun u span hu => Or.inl (toPush_update rfl hu),
      fun span hspan => Or.inl hspan, Or.inr ⟨_, _, _, hphase, rfl, rfl⟩⟩
  | _ => exact spreads_quiet (hpush rfl) rfl rfl rfl (Adds.refl _)

end Step

/-! ### What a call of `consume` is given -/

/-- A span that is on its way has the descriptor of its thread in the map, the drained descriptors are those that
have been in a call, and no call was given a span before the descriptor of its thread. -/
structure Announced (w : World T) : Prop where
  created : ∀ h span raw, w.spans h = some span → span.inner = some raw → w.Describes raw.threadId
  pushing : ∀ u span, (w.phase u).toPush = some span → w.Describes span.threadId
  pushed : ∀ span ∈ w.history.pushed, w.Describes span.threadId
  drained : ∀ d, w.descriptors.get? d = some true ↔ d ∈ w.drained
  once : w.drained.Nodup
  closed : Closed describedTracks spanTracks ∅ w.consumed

theorem Described.isDescriptor {info : T → ThreadInfo} {w : World T} (h : Described info w) {d : RawSpan}
    (hd : (w.descriptors.get? d).isSome = true) : d.typ.isDescriptor = true := by
  rcases h.of d hd with ⟨u, -, rfl⟩ | ⟨-, hprocess⟩
  · rfl
  · rw [hprocess]
    rfl

/-- What is drained are descriptors. -/
theorem Described.isDescriptor_of_drained {info : T → ThreadInfo} {w : World T} (h : Described info w)
    {order : IterOrder RawSpan} {d : RawSpan} (hd : d ∈ (drainDescriptors order w.descriptors).1) :
    d.typ.isDescriptor = true := by
  rw [mem_drained] at hd
  exact h.isDescriptor (by rw [hd]; rfl)

private theorem drained_nodup (order : IterOrder RawSpan) (m : HashMap RawSpan Bool) :
    (drainDescriptors order m).1.Nodup :=
  ((order.perm m.keys).nodup_iff.2 m.keys_nodup).filter _

private theorem mem_defined_describedTracks {calls : List (List RawSpan × List RawSpan)} {d : RawSpan}
    (hd : d ∈ calls.flatMap Prod.fst) (hthread : ∃ name, d.typ = .threadDiscriptor name) :
    some d.threadId ∈ defined describedTracks calls := by
  obtain ⟨call, hcall, hd⟩ := List.mem_flatMap.1 hd
  exact ⟨call, hcall, d, hd, hthread, rfl⟩

/-- The batches that a flush call still has to consume have been pushed. -/
private theorem Accounted.mem_pushed {w : World T} {t : T} (h : Accounted w.buffers) {batches : List (List RawSpan)}
    (hphase : w.phase t = .delivering batches) {batch : List RawSpan} (hbatch : batch ∈ batches) {span : RawSpan}
    (hspan : span ∈ batch) : span ∈ w.history.pushed := by
  have hlock : w.buffers.lock = some t := by
    rw [← h.orderly.holds]
    change (w.phase t).holds = true
    rw [hphase]
    rfl
  have hdelivered : batch ∈ w.buffers.delivered := by
    refine List.mem_append_right _ ?_
    rw [delivering_of_lock hlock]
    change batch ∈ (w.phase t).batches
    rw [hphase]
    exact hbatch
  have hsent : batch ∈ w.buffers.sent := by
    simp only [Buffers.sent, Buffers.done, Multiset.mem_add, Multiset.mem_coe]
    exact Or.inr (Or.inl (Or.inl (Or.inl hdelivered)))
  have hmem : span ∈ (↑w.buffers.history.pushed : Multiset RawSpan) := by
    rw [h.pushed, Multiset.mem_add]
    exact Or.inr (Multiset.mem_bind.2 ⟨batch, hsent, hspan⟩)
  exact hmem

section Run

variable {info : T → ThreadInfo} {w w' : World T} {t : T}

private theorem Spreads.announced (hspreads : Spreads info w t w') (h : Announced w) (haccounted : Accounted w.buffers)
    (hdescribed : Described info w') : Announced w' := by
  have hkeeps : ∀ id, w.Describes id → w'.Describes id := by
    rintro id ⟨d, hd, htyp, hid⟩
    exact ⟨d, hspreads.keeps d hd, htyp, hid⟩
  have hcreated : ∀ h span raw, w'.spans h = some span → span.inner = some raw → w'.Describes raw.threadId := by
    intro v span raw hspan hraw
    rcases hspreads.created v span raw hspan hraw with hold | ⟨hid, hinit⟩
    · exact hkeeps _ (h.created v span raw hold hraw)
    · rw [hid]
      exact ⟨_, hdescribed.thread t hinit, ⟨_, rfl⟩, rfl⟩
  have hpushing : ∀ u span, (w'.phase u).toPush = some span → w'.Describes span.threadId := by
    intro u span hu
    rcases hspreads.pushing u span hu with hold | ⟨v, old, raw, hold, hraw, hid⟩
    · exact hkeeps _ (h.pushing u span hold)
    · rw [← hid]
      exact hkeeps _ (h.created v old raw hold hraw)
  have hpushed : ∀ span ∈ w'.history.pushed, w'.Describes span.threadId := by
    intro span hspan
    rcases hspreads.pushed span hspan with hold | hold
    · exact hkeeps _ (h.pushed span hold)
    · exact hkeeps _ (h.pushing t span hold)
  rcases hspreads.descriptors with ⟨hconsumed, hadds⟩ | ⟨order, batch, batches, hphase, hdescriptors, hconsumed⟩
  · have hdrained : w'.drained = w.drained := by rw [World.drained, hconsumed, World.drained]
    refine ⟨hcreated, hpushing, hpushed, ?_, ?_, ?_⟩
    · intro d
      rw [(hadds d).2, h.drained, hdrained]
    · rw [hdrained]
      exact h.once
    · rw [hconsumed]
      exact h.closed
  · have hdrained : w'.drained = w.drained ++ (drainDescriptors order w.descriptors).1 := by
      simp [World.drained, hconsumed]
    refine ⟨hcreated, hpushing, hpushed, ?_, ?_, ?_⟩
    · intro d
      rw [hdescriptors, get?_drained, hdrained, List.mem_append, mem_drained, ← h.drained]
      by_cases hd : w.descriptors.get? d = some false
      · simp [hd]
      · simp [hd]
    · rw [hdrained]
      apply List.Nodup.append h.once (drained_nodup order _)
      intro d hd hnew
      rw [← h.drained] at hd
      rw [mem_drained, hd] at hnew
      cases hnew
    · rw [hconsumed, DefBeforeUse.closed_append, DefBeforeUse.closed_singleton]
      refine ⟨h.closed, ?_⟩
      rintro uuid ⟨span, hspan, rfl⟩
      obtain ⟨d, hd, hthread, hid⟩ := h.pushed span (haccounted.mem_pushed hphase List.mem_cons_self hspan)
      rw [← hid]
      -- its descriptor is in the call or has been in one
      cases hflag : w.descriptors.get? d with
      | none => rw [hflag] at hd; cases hd
      | some flushed =>
        cases flushed with
        | true => exact Or.inl (Or.inr (mem_defined_describedTracks ((h.drained d).1 hflag) hthread))
        | false => exact Or.inr ⟨d, mem_drained.2 hflag, hthread, rfl⟩

variable [DecidableEq T] {shardNum : Nat} {hpos : 0 < shardNum} {as : List (T × Op)}

private theorem announced_of_run (hrun : Steps.run (World.step info) (World.init shardNum hpos) as = some w) :
    Announced w := by
  refine Steps.history_induction (P := fun _ w => Announced w) ?_ ?_ hrun
  · constructor
    case created =>
      intro h span raw hspan
      cases hspan
    case pushing =>
      intro u span hu
      cases hu
    case pushed =>
      intro span hspan
      cases hspan
    case drained =>
      intro d
      constructor <;> intro hd <;> cases hd
    case once => exact List.nodup_nil
    case closed => trivial
  · intro as w a w' hrun h hw
    have hdescribed : Described info w' := (described_of_run hrun).step hw
    exact (step_spreads hw).announced h (accounted_of_run (run_quietly hrun)) hdescribed

end Run

/-! ### What a call writes -/

/-- The track that a packet with the descriptor of a thread describes. -/
def TracePacket.describes (packet : TracePacket) : Set (Option UInt64) :=
  {uuid | ∃ descriptor thread, packet.data = some (.trackDescriptor descriptor) ∧ descriptor.thread = some thread ∧
    descriptor.uuid = uuid}

/-- The track of an event. -/
def TracePacket.mentions (packet : TracePacket) : Set (Option UInt64) :=
  {uuid | ∃ event, packet.data = some (.trackEvent event) ∧ event.trackUuid = uuid}

section Packets

variable {pid : Int32} {anchor : Anchor}

private theorem perm_insertFirst {α : Type} (front : List α) (new : α) :
    (insertFirst front new).Perm (new :: front) := by
  cases front with
  | nil => exact List.Perm.refl _
  | cons first front => exact (List.perm_append_singleton first front).cons new

theorem perm_foldl_insertFirst {α : Type} (news front : List α) :
    (news.foldl insertFirst front).Perm (news ++ front) := by
  induction news generalizing front with
  | nil => exact List.Perm.refl _
  | cons new news ih =>
    rw [List.foldl_cons, List.cons_append]
    exact (ih _).trans (((perm_insertFirst front new).append_left news).trans List.perm_middle)

/-- What a descriptor writes does not depend on the packet it is written over. -/
private theorem descriptorPacket_data (d : RawSpan) (packet : TracePacket) :
    (descriptorPacket pid d packet).data = (descriptorPacket pid d {}).data := by
  unfold descriptorPacket
  split <;> rfl

theorem zipWith_data {descriptors : List RawSpan} {packets : List TracePacket}
    (h : descriptors.length ≤ packets.length) :
    (List.zipWith (descriptorPacket pid) descriptors packets).map TracePacket.data =
      descriptors.map fun d => (descriptorPacket pid d {}).data := by
  induction descriptors generalizing packets with
  | nil => rfl
  | cons d descriptors ih =>
    match packets with
    | packet :: packets =>
      rw [List.zipWith_cons_cons, List.map_cons, List.map_cons, ih (Nat.le_of_succ_le_succ h),
        descriptorPacket_data]
    | [] => cases h

private theorem mem_slicePackets {spans : List RawSpan} {packets : List TracePacket} {packet : TracePacket}
    (h : packet ∈ slicePackets pid anchor spans packets) :
    ∃ span ∈ spans, ∃ event, packet.data = some (.trackEvent event) ∧ event.trackUuid = some span.threadId := by
  fun_induction slicePackets pid anchor spans packets with
  | case1 span spans first second rest ih =>
    rcases List.mem_cons.1 h with rfl | h
    · exact ⟨span, List.mem_cons_self, _, rfl, rfl⟩
    · rcases List.mem_cons.1 h with rfl | h
      · exact ⟨span, List.mem_cons_self, _, rfl, rfl⟩
      · obtain ⟨span', hspan', hevent⟩ := ih h
        exact ⟨span', List.mem_cons_of_mem _ hspan', hevent⟩
  | case2 => cases h

/-- A call of `consume` with these descriptors and spans writes these packets, whatever lay in its vector. -/
def Written (pid : Int32) (call : List RawSpan × List RawSpan) (packets : List TracePacket) : Prop :=
  ∃ anchor pooled, encoded pid ⟨anchor, call.1, call.2, true⟩ pooled = .ok packets

/-- The writer takes the packets that are encoded, or it fails at them. -/
theorem written_of_encoded {call : Call} {pooled packets : List TracePacket}
    (h : encoded pid call pooled = .ok packets ∨ encoded pid call pooled = .error (.unwritten packets)) :
    Written pid (call.descriptors, call.spans) packets := by
  refine ⟨call.anchor, pooled, ?_⟩
  unfold encoded at h ⊢
  rw [fillPackets_eq] at h ⊢
  split at h
  · rcases h with h | h <;> cases h
  · rename_i hneeded
    split at h
    · rename_i htypes
      rw [if_neg hneeded, if_pos htypes]
      change call.unwrap _ = _ ∨ call.unwrap _ = _ at h
      unfold Call.unwrap at h
      split at h <;> rcases h with h | h <;> cases h <;> rfl
    · rcases h with h | h <;> cases h

/-- The packets of the descriptors, the last one first, and then the events of the spans. -/
theorem Written.eq {call : List RawSpan × List RawSpan} {packets : List TracePacket} (h : Written pid call packets) :
    ∃ anchor pooled, call.1.length ≤ pooled.length ∧
      packets = (List.zipWith (descriptorPacket pid) call.1 pooled).foldl insertFirst [] ++
        slicePackets pid anchor call.2 (pooled.drop call.1.length) := by
  obtain ⟨anchor, pooled, h⟩ := h
  unfold encoded at h
  rw [fillPackets_eq] at h
  split at h
  · cases h
  rename_i hneeded
  split at h
  · rename_i htypes
    rw [packetsNeeded_of_types htypes.1 htypes.2] at hneeded
    simp only at hneeded h
    have hslices : (slicePackets pid anchor call.2 (pooled.drop call.1.length)).length = 2 * call.2.length :=
      length_slicePackets (by rw [List.length_drop]; omega)
    refine ⟨anchor, pooled, by omega, (Except.ok.inj h).symm.trans (List.take_left' ?_)⟩
    rw [List.length_append, length_foldl_insertFirst, List.length_nil, List.length_zipWith, hslices]
    omega
  · cases h

/-- The descriptors in some order, and then the events of the spans. -/
theorem Written.shape {call : List RawSpan × List RawSpan} {packets : List TracePacket}
    (h : Written pid call packets) :
    ∃ heads events, packets = heads ++ events ∧
      (heads.map TracePacket.data).Perm (call.1.map fun d => (descriptorPacket pid d {}).data) ∧
      ∀ packet ∈ events, ∃ span ∈ call.2, ∃ event, packet.data = some (.trackEvent event) ∧
        event.trackUuid = some span.threadId := by
  obtain ⟨anchor, pooled, hlength, rfl⟩ := h.eq
  refine ⟨_, _, rfl, ?_, fun packet hmem => mem_slicePackets hmem⟩
  have hperm := (perm_foldl_insertFirst (List.zipWith (descriptorPacket pid) call.1 pooled) []).map TracePacket.data
  rwa [List.append_nil, zipWith_data hlength] at hperm

/-- The packets of a call describe the tracks of its descriptors before they mention those of its spans. -/
private theorem Written.expands {call : List RawSpan × List RawSpan} {packets : List TracePacket}
    (h : Written pid call packets) :
    Expands describedTracks spanTracks TracePacket.describes TracePacket.mentions call packets := by
  obtain ⟨heads, events, rfl, hheads, hevents⟩ := h.shape
  have hcovers : describedTracks call ⊆ defined TracePacket.describes heads := by
    rintro uuid ⟨d, hd, ⟨name, htyp⟩, rfl⟩
    have hmem : (descriptorPacket pid d {}).data ∈ heads.map TracePacket.data :=
      hheads.mem_iff.2 (List.mem_map_of_mem hd)
    obtain ⟨packet, hpacket, hdata⟩ := List.mem_map.1 hmem
    refine ⟨packet, hpacket, ?_⟩
    rw [descriptorPacket, htyp] at hdata
    exact ⟨_, _, hdata, rfl, rfl⟩
  refine ⟨?_, fun known huses => DefBeforeUse.closed_append.2 ⟨?_, ?_⟩⟩
  · rw [DefBeforeUse.defined_append]
    exact hcovers.trans Set.subset_union_left
  · -- the first packets mention nothing
    apply DefBeforeUse.closed_of_subset
    intro packet hpacket
    rintro uuid ⟨event, hdata, -⟩
    have hmem := hheads.mem_iff.1 (List.mem_map_of_mem hpacket)
    obtain ⟨d, -, hd⟩ := List.mem_map.1 hmem
    rw [hdata] at hd
    unfold descriptorPacket at hd
    split at hd <;> cases hd
  · apply DefBeforeUse.closed_of_subset
    intro packet hpacket
    obtain ⟨span, hspan, event, hdata, huuid⟩ := hevents packet hpacket
    rintro uuid ⟨event', hdata', rfl⟩
    rw [hdata] at hdata'
    cases hdata'
    rw [huuid]
    exact Set.union_subset_union_right known hcovers (huses ⟨span, hspan, rfl⟩)

/-- A call writes the packet of a thread descriptor as often as it has been given the descriptor. -/
private theorem Written.countP_le {call : List RawSpan × List RawSpan} {packets : List TracePacket}
    (h : Written pid call packets) {d : RawSpan} {name : String} (hname : d.typ = .threadDiscriptor name)
    (hinj : ∀ d' ∈ call.1, (descriptorPacket pid d' {}).data = (descriptorPacket pid d {}).data → d' = d) :
    (packets.countP fun packet => packet.data = (descriptorPacket pid d {}).data) ≤ call.1.count d := by
  obtain ⟨heads, events, rfl, hheads, hevents⟩ := h.shape
  have hnone : (events.countP fun packet => packet.data = (descriptorPacket pid d {}).data) = 0 := by
    rw [List.countP_eq_zero]
    intro packet hpacket
    obtain ⟨span, -, event, hdata, -⟩ := hevents packet hpacket
    rw [hdata, descriptorPacket, hname]
    simp [appendThreadDescriptor]
  have hsome : (heads.countP fun packet => packet.data = (descriptorPacket pid d {}).data) =
      call.1.countP fun d' => (descriptorPacket pid d' {}).data = (descriptorPacket pid d {}).data := by
    have hcount := hheads.countP_eq fun data => data = (descriptorPacket pid d {}).data
    rwa [List.countP_map, List.countP_map] at hcount
  rw [List.countP_append, hnone, Nat.add_zero, hsome, List.count]
  refine List.countP_mono_left fun d' hd' hdata => ?_
  rw [beq_iff_eq]
  exact hinj d' hd' (of_decide_eq_true hdata)

end Packets

/-! ### Whole runs -/

/-- The calls of `consume` among the operations: their descriptors and spans. -/
def callsOf (ops : List (T × ReporterOp)) : List (List RawSpan × List RawSpan) :=
  ops.filterMap fun op =>
    match op.2 with
    | .consume call => some (call.descriptors, call.spans)
    | .threadExit => none

/-- The packets that each call writes, if no call panics or leaves its vector. -/
def Reporter.writes [DecidableEq T] (pid : Int32) (r : Reporter T) : List (T × ReporterOp) →
    Option (List (List TracePacket))
  | [] => some []
  | (t, .consume call) :: ops =>
    match r.consume pid t call with
    | (.ok packets, r') => (r'.writes pid ops).map (packets :: ·)
    | (.error _, _) => none
  | (t, .threadExit) :: ops => (r.step pid (t, .threadExit)).bind fun r' => r'.writes pid ops

/-- The packets written in a run: no event comes before a packet with the descriptor of its thread, and no descriptor
of a thread is written twice. -/
structure DescribedFirst (pid : Int32) (w : World T) (packets : List TracePacket) : Prop where
  before : ∀ front packet rest event, packets = front ++ packet :: rest → packet.data = some (.trackEvent event) →
    ∃ first ∈ front, ∃ descriptor thread, first.data = some (.trackDescriptor descriptor) ∧
      descriptor.thread = some thread ∧ descriptor.uuid = event.trackUuid
  once : ∀ d name, (w.descriptors.get? d).isSome = true → d.typ = .threadDiscriptor name →
    (packets.countP fun packet => packet.data = (descriptorPacket pid d {}).data) ≤ 1

section Claim

variable [DecidableEq T] {pid : Int32}

private theorem Reporter.writes_written {r : Reporter T} {ops : List (T × ReporterOp)}
    {packets : List (List TracePacket)}
    (h : r.writes pid ops = some packets) : List.Forall₂ (Written pid) (callsOf ops) packets := by
  induction ops generalizing r packets with
  | nil =>
    cases h
    exact .nil
  | cons op ops ih =>
    obtain ⟨t, call | -⟩ := op
    · rw [Reporter.writes] at h
      split at h
      · rename_i first r' hconsume
        obtain ⟨rest, hrest, rfl⟩ := Option.map_eq_some_iff.1 h
        have hfirst := consume_fst pid r t call
        rw [hconsume] at hfirst
        exact .cons (written_of_encoded (Or.inl hfirst.symm)) (ih hrest)
      · cases h
    · obtain ⟨r', -, hrest⟩ := Option.bind_eq_some_iff.1 h
      exact ih hrest

private theorem countP_flatten_le {d : RawSpan} {name : String} (hname : d.typ = .threadDiscriptor name)
    {calls : List (List RawSpan × List RawSpan)} {packets : List (List TracePacket)}
    (h : List.Forall₂ (Written pid) calls packets) (hinj : ∀ d' ∈ calls.flatMap Prod.fst,
      (descriptorPacket pid d' {}).data = (descriptorPacket pid d {}).data → d' = d) :
    (packets.flatten.countP fun packet => packet.data = (descriptorPacket pid d {}).data) ≤
      (calls.flatMap Prod.fst).count d := by
  induction h with
  | nil => exact Nat.zero_le _
  | cons hcall _ ih =>
    rw [List.flatMap_cons, List.forall_mem_append] at hinj
    rw [List.flatten_cons, List.countP_append, List.flatMap_cons, List.count_append]
    exact Nat.add_le_add (hcall.countP_le hname hinj.1) (ih hinj.2)

omit [DecidableEq T] in
/-- The packet of a thread descriptor tells which of the added descriptors it is. -/
private theorem Described.data_inj {info : T → ThreadInfo} {w : World T} (h : Described info w) {d d' : RawSpan}
    {name : String} (hname : d.typ = .threadDiscriptor name) (hd : (w.descriptors.get? d).isSome = true)
    (hd' : (w.descriptors.get? d').isSome = true)
    (hdata : (descriptorPacket pid d' {}).data = (descriptorPacket pid d {}).data) : d' = d := by
  rcases h.of d hd with ⟨u, -, rfl⟩ | ⟨-, hprocess⟩
  · rcases h.of d' hd' with ⟨v, -, rfl⟩ | ⟨-, hprocess⟩
    · simp only [descriptorPacket, threadDescriptor, appendThreadDescriptor, createTrackDescriptor,
        Option.some.injEq, Data.trackDescriptor.injEq, TrackDescriptor.mk.injEq] at hdata
      obtain ⟨hid, hsame, -⟩ := hdata
      rw [threadDescriptor, threadDescriptor, RawSpan.mk.injEq, SpanType.threadDiscriptor.injEq]
      exact ⟨hsame, hid, rfl, rfl⟩
    · simp [descriptorPacket, hprocess, threadDescriptor, appendThreadDescriptor, appendProcessDescriptor,
        createTrackDescriptor] at hdata
  · rw [hname] at hprocess
    cases hprocess

/-- However the threads interleave with flush calls and background rounds, and whatever the pooled vectors hold, the
descriptor of a thread is written before the first event of its track and at most once. -/
theorem described_before_events {info : T → ThreadInfo} {shardNum : Nat} {hpos : 0 < shardNum} {as : List (T × Op)}
    {w : World T} (hrun : Steps.run (World.step info) (World.init shardNum hpos) as = some w)
    {ops : List (T × ReporterOp)} (hcalls : callsOf ops = w.consumed) {packets : List (List TracePacket)}
    (hwrites : Reporter.init.writes pid ops = some packets) : DescribedFirst pid w packets.flatten := by
  have hannounced := announced_of_run hrun
  have hdescribed := described_of_run hrun
  have hwritten := Reporter.writes_written hwrites
  rw [hcalls] at hwritten
  constructor
  case before =>
    intro front packet rest event hsplit hevent
    have hclosed : Closed TracePacket.describes TracePacket.mentions ∅ packets.flatten :=
      hannounced.closed.flatten (hwritten.imp fun _ _ h => h.expands)
    rw [hsplit] at hclosed
    rcases hclosed.uses_subset ⟨event, hevent, rfl⟩ with (hnone | ⟨first, hfirst, hdescribes⟩) | ⟨_, _, hdata, -⟩
    · cases hnone
    · exact ⟨first, hfirst, hdescribes⟩
    · rw [hevent] at hdata
      cases hdata
  case once =>
    intro d name hd hname
    have hdrained : w.drained.count d ≤ 1 := List.nodup_iff_count_le_one.1 hannounced.once d
    refine (countP_flatten_le hname hwritten ?_).trans hdrained
    intro d' hd' hdata
    have hflag : w.descriptors.get? d' = some true := (hannounced.drained d').2 hd'
    exact hdescribed.data_inj hname hd (by rw [hflag]; rfl) hdata

end Claim

/-- With one shard `a` creates and drops a span, and flushes. -/
def parkAndFlush : List (TwoThreads × Op) := List.flatten [
  [(.a, .threadStart), (.a, .start), (.a, .span 0 .runtimePark ⟨5⟩), (.a, .dropSpan 0 ⟨6⟩)], nexts .a 1,
  [(.a, .flush)], nexts .a 9]

def afterPark : World TwoThreads := runFrom twoThreads (World.init 1 Nat.one_pos) parkAndFlush

/-- The call that the flush makes. -/
def parkCalls : List (TwoThreads × ReporterOp) :=
  afterPark.consumed.map fun call => (.a, .consume ⟨smallCall.anchor, call.1, call.2, true⟩)

def parkPackets : List (List TracePacket) := (Reporter.init.writes 7 parkCalls).getD []

/-- The descriptors of the process and of the thread, and the two events of the span. -/
theorem described_before_events_park :
    parkPackets.flatten.length = 4 ∧ DescribedFirst 7 afterPark parkPackets.flatten := by
  have hrun : Steps.run (World.step twoThreads) (World.init 1 Nat.one_pos) parkAndFlush = some afterPark :=
    run_eq_runFrom (by decide +kernel)
  have hcalls : callsOf parkCalls = afterPark.consumed := by decide +kernel
  have hsome : (Reporter.init.writes 7 parkCalls).isSome = true := by decide +kernel
  have hwrites : Reporter.init.writes 7 parkCalls = some parkPackets :=
    (Option.getD_of_ne_none (Option.isSome_iff_ne_none.1 hsome) []).symm
  exact ⟨by decide +kernel, described_before_events hrun hcalls hwrites⟩

end RtTrace
