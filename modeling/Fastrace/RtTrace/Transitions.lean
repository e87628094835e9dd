import Fastrace.RtTrace.Runtime

/-!
# The steps of the runtime

`Transition` lists what a step of the runtime can do, with everything that the code has checked before it does so
(`step_transition`).  What the following modules say of a step they derive from `Transition` and, where a command is
sent, from what sending leaves as it is (`sendCommand_keeps`).
-/

namespace RtTrace

open Fastrace (Instant)

variable {T : Type} [DecidableEq T]

inductive Transition (info : T → ThreadInfo) (w : World T) (t : T) : Op → World T → Prop where
  | threadStart (hnew : t ∉ w.alive ∧ t ∉ w.exited) (hids : ∀ u ∈ w.alive, (info u).id ≠ (info t).id) :
      Transition info w t .threadStart { w with alive := t :: w.alive }
  | threadExit (hfree : w.free t = true) :
      Transition info w t .threadExit { w with alive := w.alive.erase t, exited := t :: w.exited }
  | start (hfree : w.free t = true) : Transition info w t .start { w with enabled := true }
  | stop (hfree : w.free t = true) : Transition info w t .stop { w with enabled := false }
  | flush (hfree : w.free t = true) :
      Transition info w t .flush ({ w with enabled := false }.setPhase t (.flushing 0))
  | collect (hfree : w.free t = true) : Transition info w t .collect (w.setPhase t (.locking false))
  | span {h : Var} {typ : SpanType} {now : Instant} {descriptors : HashMap RawSpan Bool} (hfree : w.free t = true)
      (hspan : w.spans h = none) (henabled : w.enabled = true)
      (hadd : (if w.initialized t then some w.descriptors else
        addDescriptor w.descriptors (threadDescriptor (info t))) = some descriptors) :
      Transition info w t (.span h typ now) { w with
        descriptors := descriptors
        initialized := Function.update w.initialized t true
        spans := Function.update w.spans h
          (some ⟨some ⟨typ, (info t).id, now, Instant.zero⟩, (info t).id.toNat % w.shardNum⟩) }
  | noopSpan {h : Var} {typ : SpanType} {now : Instant} (hfree : w.free t = true) (hspan : w.spans h = none)
      (henabled : w.enabled = false) :
      Transition info w t (.span h typ now)
        { w with spans := Function.update w.spans h (some ⟨none, (info t).id.toNat % w.shardNum⟩) }
  | dropSpan {h : Var} {now : Instant} {span : Span} {raw : RawSpan} (hfree : w.free t = true)
      (hspan : w.spans h = some span) (henabled : w.enabled = true) (hraw : span.inner = some raw) :
      Transition info w t (.dropSpan h now) ({ w with spans := Function.update w.spans h none }.setPhase t
        (.pushing span.spanQueueHandle { raw with «end» := now }))
  | forgetSpan {h : Var} {now : Instant} {span : Span} (hfree : w.free t = true) (hspan : w.spans h = some span)
      (hnoop : w.enabled = true → span.inner = none) :
      Transition info w t (.dropSpan h now) { w with spans := Function.update w.spans h none }
  | push {order : IterOrder RawSpan} {i : Nat} {span : RawSpan} {queue : SpanQueue}
      (hphase : w.phase t = .pushing i span) (hqueue : w.queues[i]? = some queue)
      (hpush : (queue.push span).2 = none) :
      Transition info w t (.next order) ({ w with
        queues := w.queues.set i (queue.push span).1
        history := { w.history with pushed := w.history.pushed ++ [span] } }.setPhase t .idle)
  | pushBatch {order : IterOrder RawSpan} {i : Nat} {span : RawSpan} {queue : SpanQueue} {command : Command}
      {w' : World T} (hphase : w.phase t = .pushing i span) (hqueue : w.queues[i]? = some queue)
      (hpush : (queue.push span).2 = some command)
      (hsend : ({ w with
        queues := w.queues.set i (queue.push span).1
        history := { w.history with pushed := w.history.pushed ++ [span] } }.setPhase t .idle).sendCommand t command =
          some w') : Transition info w t (.next order) w'
  | flushShard {order : IterOrder RawSpan} {index : Nat} {queue : SpanQueue} {w' : World T}
      (hphase : w.phase t = .flushing index) (hindex : index < w.queues.length)
      (hqueue : w.queues[index % w.shardNum]? = some queue)
      (hsend : ({ w with queues := w.queues.set (index % w.shardNum) queue.flush.1 }.setPhase t
        (.flushing (index + 1))).sendCommand t queue.flush.2 = some w') : Transition info w t (.next order) w'
  /-- The `start` at the end of the loop over the shards. -/
  | restart {order : IterOrder RawSpan} {index : Nat} (hphase : w.phase t = .flushing index)
      (hindex : w.queues.length ≤ index) :
      Transition info w t (.next order) ({ w with enabled := true }.setPhase t (.locking true))
  | lock {order : IterOrder RawSpan} {flush : Bool} (hphase : w.phase t = .locking flush) (hlock : w.lock = none) :
      Transition info w t (.next order) ({ w with lock := some t }.setPhase t (.collecting flush 0))
  | receive {order : IterOrder RawSpan} {flush : Bool} {index : Nat} {u : T} {command : Command} {rest : List Command}
      (hphase : w.phase t = .collecting flush index) (hu : w.receivers[index]? = some u)
      (hchannel : w.channel u = command :: rest) :
      Transition info w t (.next order)
        ({ w with channel := Function.update w.channel u rest }.pushOverwrite command)
  | nextReceiver {order : IterOrder RawSpan} {flush : Bool} {index : Nat} {u : T}
      (hphase : w.phase t = .collecting flush index) (hu : w.receivers[index]? = some u) (hchannel : w.channel u = []) :
      Transition info w t (.next order) (w.setPhase t (.collecting flush (index + 1)))
  | lastReceiver {order : IterOrder RawSpan} {flush : Bool} {index : Nat} (hphase : w.phase t = .collecting flush index)
      (hlast : w.receivers.length ≤ index) : Transition info w t (.next order) (w.setPhase t (.collected flush))
  /-- The end of a round of the consumer thread. -/
  | endRound {order : IterOrder RawSpan} (hphase : w.phase t = .collected false) :
      Transition info w t (.next order) ({ w with lock := none }.setPhase t .idle)
  /-- A flush call before the first command. -/
  | drainNothing {order : IterOrder RawSpan} {descriptors : HashMap RawSpan Bool}
      (hphase : w.phase t = .collected true)
      (hadd : (if w.flushedOnce then some w.descriptors else
        addDescriptor w.descriptors (processDescriptor (info t))) = some descriptors) (hbuf : w.commandBuf = none) :
      Transition info w t (.next order)
        ({ w with descriptors := descriptors, flushedOnce := true, lock := none }.setPhase t .idle)
  | drain {order : IterOrder RawSpan} {descriptors : HashMap RawSpan Bool} {buf : RingBuffer Command}
      (hphase : w.phase t = .collected true)
      (hadd : (if w.flushedOnce then some w.descriptors else
        addDescriptor w.descriptors (processDescriptor (info t))) = some descriptors) (hbuf : w.commandBuf = some buf) :
      Transition info w t (.next order) ({ w with
        descriptors := descriptors
        flushedOnce := true
        commandBuf := some buf.drain.2
        history := { w.history with
          sent := w.receivers.flatMap w.channel
          collected := []
          evicted := [] } }.setPhase t (.delivering (buf.drain.1.map Command.spans)))
  | consume {order : IterOrder RawSpan} {batch : List RawSpan} {batches : List (List RawSpan)}
      (hphase : w.phase t = .delivering (batch :: batches)) :
      Transition info w t (.next order) ({ w with
        descriptors := (drainDescriptors order w.descriptors).2
        consumed := w.consumed ++ [((drainDescriptors order w.descriptors).1, batch)] }.setPhase t
          (.delivering batches))
  | endFlush {order : IterOrder RawSpan} (hphase : w.phase t = .delivering []) :
      Transition info w t (.next order) ({ w with lock := none }.setPhase t .idle)

section Step

variable {info : T → ThreadInfo} {w w' : World T} {t : T}

private theorem newSpan_transition {h : Var} {typ : SpanType} {now : Instant} (hfree : w.free t = true)
    (hw : w.newSpan info t h typ now = some w') : Transition info w t (.span h typ now) w' := by
  unfold World.newSpan at hw
  simp only at hw
  split at hw
  · cases hw
  rename_i hspan
  have hnone : w.spans h = none := by simpa using hspan
  split at hw
  · rename_i henabled
    obtain ⟨descriptors, hadd, rfl⟩ := Option.map_eq_some_iff.1 hw
    exact .span hfree hnone henabled hadd
  · rename_i henabled
    cases hw
    exact .noopSpan hfree hnone (eq_false_of_ne_true henabled)

private theorem dropSpan_transition {h : Var} {now : Instant} (hfree : w.free t = true)
    (hw : w.dropSpan t h now = some w') : Transition info w t (.dropSpan h now) w' := by
  unfold World.dropSpan at hw
  obtain ⟨span, hspan, rfl⟩ := Option.map_eq_some_iff.1 hw
  simp only
  split
  · rename_i raw henabled hraw
    exact .dropSpan hfree hspan henabled hraw
  · rename_i hnoop
    refine .forgetSpan hfree hspan fun henabled => ?_
    cases hraw : span.inner with
    | none => rfl
    | some raw => exact absurd hraw (hnoop raw henabled)

private theorem drain_transition {order : IterOrder RawSpan} (hphase : w.phase t = .collected true)
    (hw : w.drain info t = some w') : Transition info w t (.next order) w' := by
  unfold World.drain at hw
  obtain ⟨descriptors, hadd, rfl⟩ := Option.map_eq_some_iff.1 hw
  simp only
  split
  · rename_i hbuf
    exact .drainNothing hphase hadd hbuf
  · rename_i buf hbuf
    exact .drain hphase hadd hbuf

private theorem next_transition {order : IterOrder RawSpan} (hw : w.next info t order = some w') :
    Transition info w t (.next order) w' := by
  unfold World.next at hw
  split at hw
  · cases hw
  · rename_i i span hphase
    obtain ⟨queue, hqueue, hw⟩ := Option.bind_eq_some_iff.1 hw
    simp only at hw
    split at hw
    · rename_i hpush
      cases hw
      exact .push hphase hqueue hpush
    · rename_i command hpush
      exact .pushBatch hphase hqueue hpush hw
  · rename_i index hphase
    split at hw
    · rename_i hindex
      obtain ⟨queue, hqueue, hw⟩ := Option.bind_eq_some_iff.1 hw
      exact .flushShard hphase hindex hqueue hw
    · rename_i hindex
      cases hw
      exact .restart hphase (Nat.le_of_not_lt hindex)
  · rename_i flush hphase
    split at hw
    · rename_i hlock
      cases hw
      exact .lock hphase (Option.isNone_iff_eq_none.1 hlock)
    · cases hw
  · rename_i flush index hphase
    split at hw
    · rename_i hlast
      cases hw
      exact .lastReceiver hphase (List.getElem?_eq_none_iff.1 hlast)
    · rename_i u hu
      split at hw
      · rename_i hchannel
        cases hw
        exact .nextReceiver hphase hu hchannel
      · rename_i command rest hchannel
        cases hw
        exact .receive hphase hu hchannel
  · rename_i hphase
    cases hw
    exact .endRound hphase
  · rename_i hphase
    exact drain_transition hphase hw
  · rename_i hphase
    cases hw
    exact .endFlush hphase
  · rename_i batch batches hphase
    cases hw
    exact .consume hphase

/-- A step of the runtime is one of these transitions. -/
theorem step_transition {op : Op} (hw : w.step info (t, op) = some w') : Transition info w t op w' := by
  cases op with
  | threadStart =>
    obtain ⟨⟨hnew, hold, hids⟩, hw⟩ := Option.ite_none_right_eq_some.1 hw
    cases hw
    exact .threadStart ⟨hnew, hold⟩ hids
  | threadExit =>
    obtain ⟨hfree, hw⟩ := Option.ite_none_right_eq_some.1 hw
    cases hw
    exact .threadExit hfree
  | span h typ now =>
    obtain ⟨hfree, hw⟩ := Option.ite_none_right_eq_some.1 hw
    exact newSpan_transition hfree hw
  | dropSpan h now =>
    obtain ⟨hfree, hw⟩ := Option.ite_none_right_eq_some.1 hw
    exact dropSpan_transition hfree hw
  | start =>
    obtain ⟨hfree, hw⟩ := Option.ite_none_right_eq_some.1 hw
    cases hw
    exact .start hfree
  | stop =>
    obtain ⟨hfree, hw⟩ := Option.ite_none_right_eq_some.1 hw
    cases hw
    exact .stop hfree
  | flush =>
    obtain ⟨hfree, hw⟩ := Option.ite_none_right_eq_some.1 hw
    cases hw
    exact .flush hfree
  | collect =>
    obtain ⟨hfree, hw⟩ := Option.ite_none_right_eq_some.1 hw
    cases hw
    exact .collect hfree
  | next order => exact next_transition hw

omit [DecidableEq T] in
theorem consumes_eq_some {op : Op} {order : IterOrder RawSpan} {batch : List RawSpan} :
    w.consumes t op = some (order, batch) ↔
      op = .next order ∧ ∃ batches, w.phase t = .delivering (batch :: batches) := by
  unfold World.consumes
  constructor
  · intro h
    split at h
    · split at h
      · rename_i batches hphase
        cases h
        exact ⟨rfl, batches, hphase⟩
      · cases h
    · cases h
  · rintro ⟨rfl, batches, hphase⟩
    simp only [hphase]

theorem toPush_update {p : Phase} (hp : p.toPush = none) {phase : T → Phase} {u : T} {span : RawSpan}
    (hu : (Function.update phase t p u).toPush = some span) : (phase u).toPush = some span := by
  rw [Function.update_apply] at hu
  split at hu
  · rw [hp] at hu
    cases hu
  · exact hu

theorem free_idle (h : w.free t = true) : w.phase t = .idle := by
  unfold World.free at h
  rw [decide_eq_true_iff] at h
  exact h.2

/-! ### Sending -/

/-- What sending a command leaves as it is. -/
structure SendKeeps (w w' : World T) : Prop where
  shardNum : w'.shardNum = w.shardNum
  enabled : w'.enabled = w.enabled
  alive : w'.alive = w.alive
  exited : w'.exited = w.exited
  initialized : w'.initialized = w.initialized
  spans : w'.spans = w.spans
  queues : w'.queues = w.queues
  descriptors : w'.descriptors = w.descriptors
  flushedOnce : w'.flushedOnce = w.flushedOnce
  phase : w'.phase = w.phase
  consumed : w'.consumed = w.consumed
  pushed : w'.history.pushed = w.history.pushed
  lost : w'.history.lost = w.history.lost

theorem sendCommand_keeps {command : Command} (hw : w.sendCommand t command = some w') : SendKeeps w w' := by
  unfold World.sendCommand at hw
  split at hw
  · split at hw <;> cases hw <;> exact ⟨rfl, rfl, rfl, rfl, rfl, rfl, rfl, rfl, rfl, rfl, rfl, rfl, rfl⟩
  · split at hw
    · cases hw
    · cases hw
      exact ⟨rfl, rfl, rfl, rfl, rfl, rfl, rfl, rfl, rfl, rfl, rfl, rfl, rfl⟩

theorem step_lost {op : Op} (hw : w.step info (t, op) = some w') : w'.history.lost = w.history.lost := by
  cases step_transition hw with
  | pushBatch hphase hqueue hpush hsend => exact (sendCommand_keeps hsend).lost
  | flushShard hphase hindex hqueue hsend => exact (sendCommand_keeps hsend).lost
  | _ => rfl

end Step

end RtTrace
