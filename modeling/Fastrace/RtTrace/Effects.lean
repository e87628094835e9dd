import Fastrace.RtTrace.Transitions

/-!
# What a step does to the commands

`Buffers` is the part of the runtime that spans pass through: the queues, the channels, the ring buffer and the
consumer, with the lock and the phases that say who may touch them.  `Effect` lists what a step can do to it, with the
conditions under which it does (`act_effect`); the invariants of the following modules are derived from `Effect`
alone.
-/

namespace RtTrace

/-- The thread holds `GLOBAL_SPAN_CONSUMER`. -/
def Phase.holds : Phase → Bool
  | .collecting _ _ => true
  | .collected _ => true
  | .delivering _ => true
  | _ => false

structure Buffers (T : Type) where
  shardNum : Nat
  queues : List SpanQueue
  receivers : List T
  channel : T → List Command
  commandBuf : Option (RingBuffer Command)
  lock : Option T
  phase : T → Phase
  consumed : List (List RawSpan × List RawSpan)
  history : History

variable {T : Type}

def World.buffers (w : World T) : Buffers T where
  shardNum := w.shardNum
  queues := w.queues
  receivers := w.receivers
  channel := w.channel
  commandBuf := w.commandBuf
  lock := w.lock
  phase := w.phase
  consumed := w.consumed
  history := w.history

variable [DecidableEq T]

def Buffers.setPhase (b : Buffers T) (t : T) (phase : Phase) : Buffers T :=
  { b with phase := Function.update b.phase t phase }

/-- The thread sends a command. -/
inductive Sends (b : Buffers T) (t : T) (command : Command) : Buffers T → Prop where
  | sent (hmem : t ∈ b.receivers) (hspace : (b.channel t).length < channelCapacity) :
      Sends b t command { b with
        channel := Function.update b.channel t (b.channel t ++ [command])
        history := { b.history with sent := b.history.sent ++ [command] } }
  | refused (hmem : t ∈ b.receivers) (hfull : channelCapacity ≤ (b.channel t).length) :
      Sends b t command { b with history := { b.history with refused := b.history.refused ++ [command] } }
  /-- No channel is registered while a collect goes on. -/
  | registered (hmem : t ∉ b.receivers) (hlock : ∀ u flush index, b.lock = some u →
        b.phase u ≠ .collecting flush index) :
      Sends b t command { b with
        receivers := b.receivers ++ [t]
        channel := Function.update b.channel t [command]
        history := { b.history with sent := b.history.sent ++ [command] } }

/-- The history of a command moved to the ring buffer. -/
def History.collect (history : History) (buf : RingBuffer Command) (command : Command) : History :=
  { history with
    overwritten := history.overwritten ++ buf.overwritten.toList
    collected := history.collected ++ [command]
    evicted := history.evicted ++ buf.overwritten.toList }

/-- The ring buffer, empty before the first command. -/
def Buffers.IsBuf (b : Buffers T) (buf : RingBuffer Command) : Prop :=
  b.commandBuf = some buf ∨ b.commandBuf = none ∧ buf.items = [] ∧ buf.capacity = b.shardNum * 2

inductive Effect (b : Buffers T) (t : T) : Buffers T → Prop where
  | quiet : Effect b t b
  /-- On to a phase without the lock. -/
  | moved {p : Phase} (hold : (b.phase t).holds = false) (hnew : p.holds = false) : Effect b t (b.setPhase t p)
  | pushed {i : Nat} {span : RawSpan} {queue : SpanQueue} (hphase : b.phase t = .pushing i span)
      (hqueue : b.queues[i]? = some queue) (hlen : (queue.spans ++ [span]).length ≠ defaultBatchSize) :
      Effect b t ({ b with
        queues := b.queues.set i { spans := queue.spans ++ [span] }
        history := { b.history with pushed := b.history.pushed ++ [span] } }.setPhase t .idle)
  | pushedLast {i : Nat} {span : RawSpan} {queue : SpanQueue} {b' : Buffers T} (hphase : b.phase t = .pushing i span)
      (hqueue : b.queues[i]? = some queue) (hlen : (queue.spans ++ [span]).length = defaultBatchSize)
      (hsend : Sends ({ b with
        queues := b.queues.set i {}
        history := { b.history with pushed := b.history.pushed ++ [span] } }.setPhase t .idle) t
          (.sendSpans (queue.spans ++ [span])) b') : Effect b t b'
  | flushed {index : Nat} {queue : SpanQueue} {b' : Buffers T} (hphase : b.phase t = .flushing index)
      (hqueue : b.queues[index % b.shardNum]? = some queue)
      (hsend : Sends ({ b with queues := b.queues.set (index % b.shardNum) {} }.setPhase t (.flushing (index + 1))) t
        (.sendSpans queue.spans) b') : Effect b t b'
  | locked {flush : Bool} (hphase : b.phase t = .locking flush) (hlock : b.lock = none) :
      Effect b t ({ b with lock := some t }.setPhase t (.collecting flush 0))
  /-- Finds the channel of a receiver empty. -/
  | visited {flush : Bool} {index : Nat} {u : T} (hphase : b.phase t = .collecting flush index)
      (hu : b.receivers[index]? = some u) (hnil : b.channel u = []) :
      Effect b t (b.setPhase t (.collecting flush (index + 1)))
  | received {flush : Bool} {index : Nat} {u : T} {command : Command} {rest : List Command}
      {buf : RingBuffer Command} (hphase : b.phase t = .collecting flush index) (hu : b.receivers[index]? = some u)
      (hchannel : b.channel u = command :: rest) (hbuf : b.IsBuf buf) :
      Effect b t { b with
        channel := Function.update b.channel u rest
        commandBuf := some (buf.pushOverwrite command)
        history := b.history.collect buf command }
  | collected {flush : Bool} {index : Nat} (hphase : b.phase t = .collecting flush index)
      (hlast : b.receivers.length ≤ index) : Effect b t (b.setPhase t (.collected flush))
  | drained {buf : RingBuffer Command} (hphase : b.phase t = .collected true) (hbuf : b.commandBuf = some buf) :
      Effect b t ({ b with
        commandBuf := some buf.drain.2
        history := { b.history with
          sent := b.receivers.flatMap b.channel
          collected := []
          evicted := [] } }.setPhase t
          (.delivering (buf.items.map Command.spans)))
  | consumed {batch : List RawSpan} {batches : List (List RawSpan)} (descriptors : List RawSpan)
      (hphase : b.phase t = .delivering (batch :: batches)) :
      Effect b t ({ b with consumed := b.consumed ++ [(descriptors, batch)] }.setPhase t (.delivering batches))
  | released (hphase : b.phase t = .collected false ∨ b.phase t = .collected true ∧ b.commandBuf = none ∨
        b.phase t = .delivering []) : Effect b t ({ b with lock := none }.setPhase t .idle)
  /-- `consume` panics. -/
  | unwound {batch : List RawSpan} {batches : List (List RawSpan)} (descriptors : List RawSpan)
      (hphase : b.phase t = .delivering (batch :: batches)) :
      Effect b t ({ b with
        lock := none
        consumed := b.consumed ++ [(descriptors, batch)]
        history := { b.history with lost := b.history.lost ++ batches } }.setPhase t .idle)

/-! ### Every step has one of these effects -/

section Step

variable {w w' : World T} {t : T}

private theorem sendCommand_sends {command : Command} (h : w.sendCommand t command = some w') :
    Sends w.buffers t command w'.buffers := by
  unfold World.sendCommand at h
  split at h
  · rename_i hmem
    split at h
    · rename_i hspace
      cases h
      exact .sent hmem hspace
    · rename_i hfull
      cases h
      exact .refused hmem (Nat.le_of_not_lt hfull)
  · rename_i hmem
    split at h
    · cases h
    · rename_i hlocked
      cases h
      refine .registered hmem fun u flush index hlock hphase => hlocked ?_
      change w.lock = some u at hlock
      change w.phase u = _ at hphase
      simp [World.rxsLocked, hlock, hphase]

theorem step_effect {info : T → ThreadInfo} {a : T × Op} (hw : w.step info a = some w') :
    Effect w.buffers a.1 w'.buffers := by
  obtain ⟨t, op⟩ := a
  have hmoved : ∀ p : Phase, (w.phase t).holds = false → p.holds = false →
      Effect w.buffers t (w.buffers.setPhase t p) := fun p hold hnew => .moved hold hnew
  cases step_transition hw with
  | threadStart | threadExit | start | stop | span | noopSpan | forgetSpan => exact .quiet
  | flush hfree | collect hfree | dropSpan hfree => exact hmoved _ (by rw [free_idle hfree]; rfl) rfl
  | push hphase hqueue hpush =>
    rename_i i span queue
    rcases queue.push_cases span with ⟨hcases, hlen⟩ | ⟨hcases, hlen⟩
    · rw [hcases] at hpush
      cases hpush
    · rw [hcases]
      exact .pushed hphase hqueue hlen
  | pushBatch hphase hqueue hpush hsend =>
    rename_i i span queue command
    rcases queue.push_cases span with ⟨hcases, hlen⟩ | ⟨hcases, hlen⟩
    · rw [hcases] at hpush hsend
      cases hpush
      exact .pushedLast hphase hqueue hlen (sendCommand_sends hsend)
    · rw [hcases] at hpush
      cases hpush
  | flushShard hphase hindex hqueue hsend => exact .flushed hphase hqueue (sendCommand_sends hsend)
  | restart hphase hindex => exact hmoved _ (by rw [hphase]; rfl) rfl
  | lock hphase hlock => exact .locked hphase hlock
  | receive hphase hu hchannel =>
    refine .received hphase hu hchannel ?_
    unfold Buffers.IsBuf
    change w.commandBuf = _ ∨ w.commandBuf = none ∧ _
    cases w.commandBuf with
    | none => exact Or.inr ⟨rfl, rfl, rfl⟩
    | some buf => exact Or.inl rfl
  | nextReceiver hphase hu hchannel => exact .visited hphase hu hchannel
  | lastReceiver hphase hlast => exact .collected hphase hlast
  | endRound hphase => exact .released (Or.inl hphase)
  | drainNothing hphase hadd hbuf => exact .released (Or.inr (Or.inl ⟨hphase, hbuf⟩))
  | drain hphase hadd hbuf =>
    rename_i descriptors buf
    have heffect : Effect w.buffers t _ := .drained hphase hbuf
    rw [← buf.drain_fst] at heffect
    exact heffect
  | consume hphase => exact .consumed _ hphase
  | endFlush hphase => exact .released (Or.inr (Or.inr hphase))

theorem act_effect {info : T → ThreadInfo} {a : T × PanicOp} (hw : w.act info a = some w') :
    Effect w.buffers a.1 w'.buffers := by
  obtain ⟨t, op, panics⟩ := a
  obtain ⟨w₁, hstep, rfl⟩ := Option.map_eq_some_iff.1 hw
  split
  · rename_i hpanics
    rw [Bool.and_eq_true, Option.isSome_iff_exists] at hpanics
    obtain ⟨-, ⟨order, batch⟩, hconsumes⟩ := hpanics
    obtain ⟨rfl, batches, hphase⟩ := consumes_eq_some.1 hconsumes
    change w.next info t order = some w₁ at hstep
    rw [World.next, hphase] at hstep
    cases hstep
    have heffect : Effect w.buffers t _ := .unwound (drainDescriptors order w.descriptors).1 hphase
    convert heffect using 1
    simp [World.buffers, World.unwind, World.setPhase, Buffers.setPhase, Phase.batches]
  · exact step_effect hstep

/-- A run without panics. -/
theorem run_quietly {info : T → ThreadInfo} {as : List (T × Op)} (hrun : Steps.run (World.step info) w as = some w') :
    Steps.run (World.act info) w (quietly as) = some w' := by
  induction as generalizing w with
  | nil => exact hrun
  | cons a as ih =>
    obtain ⟨w₁, hstep, hrun⟩ := Option.bind_eq_some_iff.1 hrun
    refine Option.bind_eq_some_iff.2 ⟨w₁, ?_, ih hrun⟩
    change (w.step info a).map _ = _
    rw [hstep]
    rfl

end Step

end RtTrace
