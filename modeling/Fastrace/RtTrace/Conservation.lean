import Fastrace.RtTrace.Effects
import Fastrace.RtTrace.Shards
import Mathlib.Data.Multiset.Bind
import Mathlib.Tactic.Abel

/-!
# Spans from the queues to the consumer

A span that has been pushed lies in the queue of its shard, in a command in a channel or in the ring buffer, is
delivered to the consumer, has been overwritten in the ring buffer, or was still to be passed on when `consume`
panicked.  A step moves whole batches from one place to the next (`Effect.flow`), so nothing else is lost and nothing is
delivered twice.
-/

namespace RtTrace

/-- The batches that the commands carry. -/
def batchesOf (commands : List Command) : Multiset (List RawSpan) := Multiset.map Command.spans ↑commands

@[simp] theorem batchesOf_nil : batchesOf [] = 0 := rfl

@[simp] theorem batchesOf_singleton (command : Command) : batchesOf [command] = {command.spans} := rfl

@[simp] theorem batchesOf_append (commands commands' : List Command) :
    batchesOf (commands ++ commands') = batchesOf commands + batchesOf commands' := by
  rw [batchesOf, ← Multiset.coe_add, Multiset.map_add]
  rfl

variable {T : Type}

namespace Buffers

def queued (b : Buffers T) : List RawSpan := b.queues.flatMap SpanQueue.spans

def inChannels (b : Buffers T) : List Command := b.receivers.flatMap b.channel

def buffered (b : Buffers T) : List Command := (b.commandBuf.map RingBuffer.items).getD []

/-- The batches that the flush call under way has taken for the consumer. -/
def delivering (b : Buffers T) : List (List RawSpan) := (b.lock.map fun u => (b.phase u).batches).getD []

/-- The batches taken for the consumer by flush calls, the ones consumed first. -/
def delivered (b : Buffers T) : List (List RawSpan) := b.consumed.map Prod.snd ++ b.delivering

/-- The batches that are past the ring buffer. -/
def done (b : Buffers T) : Multiset (List RawSpan) :=
  Multiset.ofList b.delivered + batchesOf b.history.overwritten + batchesOf b.history.refused +
    Multiset.ofList b.history.lost

/-- The same without the batches of the flush call under way. -/
def past (b : Buffers T) : Multiset (List RawSpan) :=
  Multiset.ofList (b.consumed.map Prod.snd) + batchesOf b.history.overwritten + batchesOf b.history.refused +
    Multiset.ofList b.history.lost

/-- The batches sent by the queues, wherever they are now. -/
def sent (b : Buffers T) : Multiset (List RawSpan) :=
  batchesOf b.inChannels + batchesOf b.buffered + b.done

end Buffers

/-! ### Lists of places -/

theorem flatMap_update {α : Type} [DecidableEq T] {l : List T} (hl : l.Nodup) {t : T} (ht : t ∈ l)
    (f : T → List α) (x : List α) :
    (↑(l.flatMap (Function.update f t x)) : Multiset α) + ↑(f t) = ↑(l.flatMap f) + ↑x := by
  have hsame : ∀ l : List T, t ∉ l → l.flatMap (Function.update f t x) = l.flatMap f := by
    intro l hnot
    rw [List.flatMap_def, List.flatMap_def]
    congr 1
    refine List.map_congr_left fun u hu => ?_
    have hne : u ≠ t := fun he => hnot (he ▸ hu)
    rw [Function.update_of_ne hne]
  induction l with
  | nil => cases ht
  | cons u l ih =>
    rw [List.nodup_cons] at hl
    rw [List.flatMap_cons, List.flatMap_cons, ← Multiset.coe_add, ← Multiset.coe_add]
    rcases List.mem_cons.1 ht with rfl | ht
    · rw [Function.update_self, hsame l hl.1]
      abel
    · have hne : u ≠ t := fun he => hl.1 (he ▸ ht)
      rw [Function.update_of_ne hne, add_assoc, ih hl.2 ht, add_assoc]

private theorem flatMap_set {α β : Type} {l : List α} {i : Nat} {a : α} (h : l[i]? = some a) (f : α → List β) (x : α) :
    (↑((l.set i x).flatMap f) : Multiset β) + ↑(f a) = ↑(l.flatMap f) + ↑(f x) := by
  obtain ⟨hi, rfl⟩ := List.getElem?_eq_some_iff.1 h
  have hl : l = l.take i ++ l[i] :: l.drop (i + 1) := by
    rw [← List.drop_eq_getElem_cons hi, List.take_append_drop]
  have hf : l.flatMap f = (l.take i).flatMap f ++ (f l[i] ++ (l.drop (i + 1)).flatMap f) := by
    rw [← List.flatMap_cons, ← List.flatMap_append, ← hl]
  rw [List.set_eq_take_append_cons_drop, if_pos hi, hf]
  simp only [List.flatMap_append, List.flatMap_cons, ← Multiset.coe_add]
  abel

/-! ### The lock and the channels -/

structure Orderly (b : Buffers T) : Prop where
  holds : ∀ u, (b.phase u).holds = true ↔ b.lock = some u
  receivers : b.receivers.Nodup
  unregistered : ∀ u, u ∉ b.receivers → b.channel u = []

section Orderly

variable [DecidableEq T] {b b' : Buffers T} {t : T}

theorem Sends.frame {command : Command} (h : Sends b t command b') :
    b'.queues = b.queues ∧ b'.commandBuf = b.commandBuf ∧ b'.lock = b.lock ∧ b'.phase = b.phase ∧
      b'.consumed = b.consumed ∧ b'.history.pushed = b.history.pushed ∧
      b'.history.overwritten = b.history.overwritten ∧ b'.history.lost = b.history.lost := by
  cases h <;> exact ⟨rfl, rfl, rfl, rfl, rfl, rfl, rfl, rfl⟩

private theorem holds_setPhase (h : Orderly b) {p : Phase} {lock : Option T} (hself : p.holds = true ↔ lock = some t)
    (hother : ∀ u, u ≠ t → (b.lock = some u ↔ lock = some u)) :
    ∀ u, (Function.update b.phase t p u).holds = true ↔ lock = some u := by
  intro u
  by_cases hu : u = t
  · subst hu
    rw [Function.update_self]
    exact hself
  · rw [Function.update_of_ne hu, h.holds u]
    exact hother u hu

private theorem Sends.orderly {command : Command} (h : Sends b t command b') (ho : Orderly b) : Orderly b' := by
  cases h with
  | sent hmem hspace =>
    refine ⟨ho.holds, ho.receivers, fun u hu => ?_⟩
    have hne : u ≠ t := fun he => hu (he ▸ hmem)
    exact (Function.update_of_ne hne ..).trans (ho.unregistered u hu)
  | refused hmem hfull => exact ⟨ho.holds, ho.receivers, ho.unregistered⟩
  | registered hmem hlock =>
    refine ⟨ho.holds, List.Nodup.append ho.receivers (List.nodup_singleton t) ?_, fun u hu => ?_⟩
    · intro u hu hut
      exact hmem (List.mem_singleton.1 hut ▸ hu)
    · rw [List.mem_append, not_or] at hu
      have hne : u ≠ t := fun he => hu.2 (List.mem_singleton.2 he)
      exact (Function.update_of_ne hne ..).trans (ho.unregistered u hu.1)

/-- The thread is past the lock in both states, or before it in both. -/
theorem orderly_setPhase (h : Orderly b) {p : Phase} (hp : p.holds = (b.phase t).holds) :
    Orderly (b.setPhase t p) :=
  ⟨holds_setPhase h (by rw [hp, h.holds]; exact Iff.rfl) fun _ _ => Iff.rfl, h.receivers, h.unregistered⟩

/-- The thread gives the lock back. -/
private theorem orderly_release (ho : Orderly b) (hheld : b.lock = some t) :
    Orderly (Buffers.setPhase { b with lock := none } t .idle) := by
  have hothers : ∀ u, u ≠ t → (b.lock = some u ↔ none = some u) := by
    intro u hu
    rw [hheld]
    simp [Ne.symm hu]
  have hself : Phase.idle.holds = true ↔ none = some t := by simp [Phase.holds]
  exact ⟨holds_setPhase ho hself hothers, ho.receivers, ho.unregistered⟩

theorem Effect.orderly (h : Effect b t b') (ho : Orderly b) : Orderly b' := by
  cases h with
  | quiet => exact ho
  | moved hold hnew => exact orderly_setPhase ho (by rw [hnew, hold])
  | pushed hphase =>
    have hset := orderly_setPhase (p := .idle) ho (by rw [hphase]; rfl)
    exact ⟨hset.holds, hset.receivers, hset.unregistered⟩
  | pushedLast hphase hqueue hlen hsend =>
    have hset := orderly_setPhase (p := .idle) ho (by rw [hphase]; rfl)
    exact hsend.orderly ⟨hset.holds, hset.receivers, hset.unregistered⟩
  | @flushed index queue b' hphase hqueue hsend =>
    have hset := orderly_setPhase (p := .flushing (index + 1)) ho (by rw [hphase]; rfl)
    exact hsend.orderly ⟨hset.holds, hset.receivers, hset.unregistered⟩
  | @locked flush hphase hlock =>
    have hothers : ∀ u, u ≠ t → (b.lock = some u ↔ some t = some u) := by
      intro u hu
      rw [hlock]
      simp [Ne.symm hu]
    have hself : (Phase.collecting flush 0).holds = true ↔ some t = some t := by simp [Phase.holds]
    exact ⟨holds_setPhase ho hself hothers, ho.receivers, ho.unregistered⟩
  | visited hphase => exact orderly_setPhase ho (by rw [hphase]; rfl)
  | received hphase hu hchannel hbuf =>
    refine ⟨ho.holds, ho.receivers, fun v hv => ?_⟩
    have hne := fun he : v = _ => hv (he ▸ List.mem_of_getElem? hu)
    exact (Function.update_of_ne hne ..).trans (ho.unregistered v hv)
  | collected hphase => exact orderly_setPhase ho (by rw [hphase]; rfl)
  | @drained buf hphase hbuf =>
    have hset := orderly_setPhase (p := .delivering (buf.items.map Command.spans)) ho (by rw [hphase]; rfl)
    exact ⟨hset.holds, hset.receivers, hset.unregistered⟩
  | @consumed batch batches descriptors hphase =>
    have hset := orderly_setPhase (p := .delivering batches) ho (by rw [hphase]; rfl)
    exact ⟨hset.holds, hset.receivers, hset.unregistered⟩
  | released hphase =>
    have hheld : b.lock = some t := by
      rw [← ho.holds]
      rcases hphase with h | ⟨h, -⟩ | h <;> rw [h] <;> rfl
    exact orderly_release ho hheld
  | unwound descriptors hphase =>
    have hrelease := orderly_release ho ((ho.holds t).1 (by rw [hphase]; rfl))
    exact ⟨hrelease.holds, hrelease.receivers, hrelease.unregistered⟩

end Orderly

/-! ### From place to place -/

/-- What a step does to the queues and the batches. -/
inductive Flow (b b' : Buffers T) : Prop where
  /-- Batches stay or go on to the next place. -/
  | still (hqueues : b'.queues = b.queues) (hpushed : b'.history.pushed = b.history.pushed) (hsent : b'.sent = b.sent)
  | queued {i : Nat} {queue : SpanQueue} (span : RawSpan) (hqueue : b.queues[i]? = some queue)
      (hlen : (queue.spans ++ [span]).length ≠ defaultBatchSize)
      (hqueues : b'.queues = b.queues.set i { spans := queue.spans ++ [span] })
      (hpushed : b'.history.pushed = b.history.pushed ++ [span]) (hsent : b'.sent = b.sent)
  /-- A queue is emptied into a batch. -/
  | batch {i : Nat} {queue : SpanQueue} (last : List RawSpan) (hqueue : b.queues[i]? = some queue)
      (hlen : last = [] ∨ (queue.spans ++ last).length = defaultBatchSize) (hqueues : b'.queues = b.queues.set i {})
      (hpushed : b'.history.pushed = b.history.pushed ++ last) (hsent : b'.sent = (queue.spans ++ last) ::ₘ b.sent)

section Flow

variable [DecidableEq T] {b b' : Buffers T} {t : T}

omit [DecidableEq T] in
theorem delivering_of_lock (h : b.lock = some t) : b.delivering = (b.phase t).batches := by
  simp [Buffers.delivering, h]

private theorem delivering_setPhase_self (h : b.lock = some t) (p : Phase) :
    (b.setPhase t p).delivering = p.batches := by
  simp [Buffers.delivering, Buffers.setPhase, h]

private theorem delivering_setPhase (h : b.lock ≠ some t) (p : Phase) : (b.setPhase t p).delivering = b.delivering := by
  unfold Buffers.delivering Buffers.setPhase
  cases hlock : b.lock with
  | none => simp
  | some u =>
    have hne : u ≠ t := fun he => h (by rw [hlock, he])
    simp [hne]

/-- A thread without the lock delivers nothing. -/
private theorem sent_setPhase (ho : Orderly b) {p : Phase} (hold : (b.phase t).holds = false) :
    (b.setPhase t p).sent = b.sent := by
  have hlock : b.lock ≠ some t := by
    rw [Ne, ← ho.holds, hold]
    simp
  have hdelivered : (b.setPhase t p).delivered = b.delivered :=
    congrArg (b.consumed.map Prod.snd ++ ·) (delivering_setPhase hlock p)
  unfold Buffers.sent Buffers.done
  rw [hdelivered]
  rfl

private theorem Sends.delivered {command : Command} (h : Sends b t command b') : b'.delivered = b.delivered := by
  cases h <;> rfl

/-- The command is in a channel now or refused. -/
theorem Sends.inChannels {command : Command} (h : Sends b t command b') (ho : Orderly b) :
    b'.history.refused = b.history.refused ∧ b'.history.sent = b.history.sent ++ [command] ∧
        (↑b'.inChannels : Multiset Command) = ↑b.inChannels + ↑[command] ∨
      b'.history.refused = b.history.refused ++ [command] ∧ b'.inChannels = b.inChannels := by
  cases h with
  | sent hmem hspace =>
    refine Or.inl ⟨rfl, rfl, ?_⟩
    have hupdate := flatMap_update ho.receivers hmem b.channel (b.channel t ++ [command])
    rw [← Multiset.coe_add, add_comm (↑(b.channel t) : Multiset Command), ← add_assoc] at hupdate
    exact add_right_cancel hupdate
  | refused hmem hfull => exact Or.inr ⟨rfl, rfl⟩
  | registered hmem hlock =>
    refine Or.inl ⟨rfl, rfl, ?_⟩
    have hsame : b.receivers.map (Function.update b.channel t [command]) = b.receivers.map b.channel := by
      refine List.map_congr_left fun u hu => ?_
      have hne : u ≠ t := fun he => hmem (he ▸ hu)
      rw [Function.update_of_ne hne]
    unfold Buffers.inChannels
    rw [List.flatMap_append, List.flatMap_def, hsame, ← List.flatMap_def, ← Multiset.coe_add]
    simp

private theorem Sends.sent_eq {command : Command} (h : Sends b t command b') (ho : Orderly b) :
    b'.sent = command.spans ::ₘ b.sent := by
  obtain ⟨-, hbuf, -, -, -, -, hoverwritten, hlost⟩ := h.frame
  have hbuffered : b'.buffered = b.buffered := by rw [Buffers.buffered, hbuf]; rfl
  rw [Buffers.sent, Buffers.done, h.delivered, hbuffered, hoverwritten, hlost, Buffers.sent, Buffers.done,
    ← Multiset.singleton_add, ← batchesOf_singleton]
  rcases h.inChannels ho with ⟨hrefused, -, hchannels⟩ | ⟨hrefused, hchannels⟩
  · rw [hrefused, batchesOf, hchannels, Multiset.map_add]
    change batchesOf b.inChannels + batchesOf [command] + _ + _ = _
    abel
  · rw [hrefused, hchannels, batchesOf_append]
    abel

omit [DecidableEq T] in
theorem Buffers.IsBuf.buffered {buf : RingBuffer Command} (h : b.IsBuf buf) : b.buffered = buf.items := by
  rcases h with h | ⟨h, hitems, -⟩
  · simp [Buffers.buffered, h]
  · simp [Buffers.buffered, h, hitems]

omit [DecidableEq T] in
/-- The lock comes and goes with nothing to deliver. -/
private theorem sent_of_delivering (hconsumed : b'.consumed = b.consumed) (hdelivering : b'.delivering = b.delivering)
    (hreceivers : b'.receivers = b.receivers) (hchannel : b'.channel = b.channel)
    (hbuf : b'.commandBuf = b.commandBuf) (hhistory : b'.history = b.history) : b'.sent = b.sent := by
  unfold Buffers.sent Buffers.done Buffers.delivered Buffers.inChannels Buffers.buffered
  rw [hconsumed, hdelivering, hreceivers, hchannel, hbuf, hhistory]

omit [DecidableEq T] in
/-- The command goes to the ring buffer; what it overwrites is still counted. -/
theorem collect_batches {buf : RingBuffer Command} (hbuf : b.IsBuf buf) (command : Command) :
    batchesOf (buf.pushOverwrite command).items + batchesOf (b.history.overwritten ++ buf.overwritten.toList) =
      batchesOf b.buffered + batchesOf b.history.overwritten + {command.spans} := by
  have hitems := congrArg batchesOf (buf.pushOverwrite_items command)
  rw [batchesOf_append, batchesOf_append, batchesOf_singleton] at hitems
  rw [batchesOf_append, hbuf.buffered]
  calc _ = batchesOf b.history.overwritten +
        (batchesOf buf.overwritten.toList + batchesOf (buf.pushOverwrite command).items) := by abel
    _ = _ := by rw [hitems]; abel

private theorem received_sent (ho : Orderly b) {index : Nat} {u : T} {command : Command} {rest : List Command}
    {buf : RingBuffer Command} (hu : b.receivers[index]? = some u) (hchannel : b.channel u = command :: rest)
    (hbuf : b.IsBuf buf) : Buffers.sent { b with
      channel := Function.update b.channel u rest
      commandBuf := some (buf.pushOverwrite command)
      history := b.history.collect buf command } = b.sent := by
  have hupdate := flatMap_update ho.receivers (List.mem_of_getElem? hu) b.channel rest
  have hchannels : batchesOf (b.receivers.flatMap (Function.update b.channel u rest)) + {command.spans} =
      batchesOf b.inChannels := by
    rw [hchannel, ← Multiset.cons_coe, ← Multiset.singleton_add, ← add_assoc] at hupdate
    have hmap := congrArg (Multiset.map Command.spans) (add_right_cancel hupdate)
    rwa [Multiset.map_add] at hmap
  have hitems := collect_batches hbuf command
  change batchesOf (b.receivers.flatMap (Function.update b.channel u rest)) +
    batchesOf (buf.pushOverwrite command).items + (Multiset.ofList b.delivered +
      batchesOf (b.history.overwritten ++ buf.overwritten.toList) + batchesOf b.history.refused +
        Multiset.ofList b.history.lost) = _
  rw [Buffers.sent, Buffers.done, ← hchannels]
  calc _ = batchesOf (b.receivers.flatMap (Function.update b.channel u rest)) +
        (batchesOf (buf.pushOverwrite command).items + batchesOf (b.history.overwritten ++ buf.overwritten.toList)) +
        (Multiset.ofList b.delivered + batchesOf b.history.refused + Multiset.ofList b.history.lost) := by abel
    _ = _ := by rw [hitems]; abel

private theorem drained_sent (ho : Orderly b) {buf : RingBuffer Command} (hphase : b.phase t = .collected true)
    (hbuf : b.commandBuf = some buf) : (Buffers.setPhase { b with
      commandBuf := some buf.drain.2
      history := { b.history with sent := b.inChannels, collected := [], evicted := [] } } t
        (.delivering (buf.items.map Command.spans))).sent = b.sent := by
  have hlock : b.lock = some t := (ho.holds t).1 (by rw [hphase]; rfl)
  have hdelivering := delivering_setPhase_self hlock (.delivering (buf.items.map Command.spans))
  have hbefore : b.delivering = [] := by rw [delivering_of_lock hlock, hphase]; rfl
  have hbuffered : b.buffered = buf.items := Buffers.IsBuf.buffered (Or.inl hbuf)
  change batchesOf b.inChannels + batchesOf buf.drain.2.items + (Multiset.ofList (b.consumed.map Prod.snd ++
    (b.setPhase t (.delivering (buf.items.map Command.spans))).delivering) + batchesOf b.history.overwritten +
      batchesOf b.history.refused + Multiset.ofList b.history.lost) = _
  rw [hdelivering, buf.items_drain, Buffers.sent, Buffers.done, Buffers.delivered, hbefore, hbuffered,
    ← Multiset.coe_add, List.append_nil, batchesOf_nil]
  change _ + _ + (_ + batchesOf buf.items + _ + _ + _) = _
  abel

theorem Effect.flow (h : Effect b t b') (ho : Orderly b) : Flow b b' := by
  have hlock : (b.phase t).holds = true → b.lock = some t := (ho.holds t).1
  cases h with
  | quiet => exact .still rfl rfl rfl
  | moved hold hnew => exact .still rfl rfl (sent_setPhase ho hold)
  | @pushed i span queue hphase hqueue hlen =>
    exact .queued span hqueue hlen rfl rfl
      (sent_setPhase (b := { b with
        queues := b.queues.set i { spans := queue.spans ++ [span] }
        history := { b.history with pushed := b.history.pushed ++ [span] } })
        ⟨ho.holds, ho.receivers, ho.unregistered⟩ (by rw [hphase]; rfl))
  | @pushedLast i span queue b' hphase hqueue hlen hsend =>
    have hset := orderly_setPhase (p := .idle) ho (by rw [hphase]; rfl)
    have hold : (b.phase t).holds = false := by rw [hphase]; rfl
    obtain ⟨hqueues, -, -, -, -, hpushed, -⟩ := hsend.frame
    refine .batch [span] hqueue (Or.inr hlen) hqueues hpushed ?_
    rw [hsend.sent_eq ⟨hset.holds, hset.receivers, hset.unregistered⟩]
    exact congrArg ((queue.spans ++ [span]) ::ₘ ·) (sent_setPhase ho hold)
  | @flushed index queue b' hphase hqueue hsend =>
    have hset := orderly_setPhase (p := .flushing (index + 1)) ho (by rw [hphase]; rfl)
    have hold : (b.phase t).holds = false := by rw [hphase]; rfl
    obtain ⟨hqueues, -, -, -, -, hpushed, -⟩ := hsend.frame
    refine .batch [] hqueue (Or.inl rfl) hqueues (hpushed.trans (List.append_nil _).symm) ?_
    rw [hsend.sent_eq ⟨hset.holds, hset.receivers, hset.unregistered⟩, List.append_nil]
    exact congrArg (queue.spans ::ₘ ·) (sent_setPhase ho hold)
  | @locked flush hphase hnone =>
    refine .still rfl rfl (sent_of_delivering rfl ?_ rfl rfl rfl rfl)
    rw [delivering_setPhase_self rfl]
    simp [Buffers.delivering, hnone, Phase.batches]
  | @visited flush index u hphase hu hnil =>
    refine .still rfl rfl (sent_of_delivering rfl ?_ rfl rfl rfl rfl)
    have hheld := hlock (by rw [hphase]; rfl)
    rw [delivering_setPhase_self hheld, delivering_of_lock hheld, hphase]
    rfl
  | received hphase hu hchannel hbuf => exact .still rfl rfl (received_sent ho hu hchannel hbuf)
  | @collected flush index hphase hlast =>
    refine .still rfl rfl (sent_of_delivering rfl ?_ rfl rfl rfl rfl)
    have hheld := hlock (by rw [hphase]; rfl)
    rw [delivering_setPhase_self hheld, delivering_of_lock hheld, hphase]
    rfl
  | drained hphase hbuf => exact .still rfl rfl (drained_sent ho hphase hbuf)
  | @consumed batch batches descriptors hphase =>
    have hheld := hlock (by rw [hphase]; rfl)
    refine .still rfl rfl ?_
    have hdelivered : (b.consumed ++ [(descriptors, batch)]).map Prod.snd ++
        (b.setPhase t (.delivering batches)).delivering = b.delivered := by
      rw [delivering_setPhase_self hheld, Buffers.delivered, delivering_of_lock hheld, hphase]
      simp [Phase.batches]
    change batchesOf b.inChannels + batchesOf b.buffered +
      (Multiset.ofList ((b.consumed ++ [(descriptors, batch)]).map Prod.snd ++
        (b.setPhase t (.delivering batches)).delivering) + _ + _ + _) = _
    rw [hdelivered]
    rfl
  | released hphase =>
    have hheld : b.lock = some t := hlock (by rcases hphase with h | ⟨h, -⟩ | h <;> rw [h] <;> rfl)
    refine .still rfl rfl (sent_of_delivering rfl ?_ rfl rfl rfl rfl)
    rw [delivering_of_lock hheld]
    rcases hphase with h | ⟨h, -⟩ | h <;> rw [h] <;> rfl
  | @unwound batch batches descriptors hphase =>
    have hheld := hlock (by rw [hphase]; rfl)
    refine .still rfl rfl ?_
    have hdelivered : Multiset.ofList b.delivered =
        Multiset.ofList ((b.consumed ++ [(descriptors, batch)]).map Prod.snd) + Multiset.ofList batches := by
      rw [Buffers.delivered, delivering_of_lock hheld, hphase, Multiset.coe_add]
      simp [Phase.batches]
    rw [Buffers.sent, Buffers.sent, Buffers.done, Buffers.done, hdelivered]
    change batchesOf b.inChannels + batchesOf b.buffered +
      (Multiset.ofList ((b.consumed ++ [(descriptors, batch)]).map Prod.snd ++ []) + batchesOf b.history.overwritten +
        batchesOf b.history.refused + Multiset.ofList (b.history.lost ++ batches)) = _
    rw [List.append_nil, ← Multiset.coe_add b.history.lost batches]
    abel

end Flow

/-! ### Runs -/

/-- The spans of the batches. -/
def spansOf (batches : Multiset (List RawSpan)) : Multiset RawSpan := batches.bind fun batch => ↑batch

private theorem spansOf_batchesOf (commands : List Command) :
    spansOf (batchesOf commands) = ↑(commands.flatMap Command.spans) := by
  rw [spansOf, batchesOf, Multiset.bind_map]
  exact Multiset.coe_bind ..

private theorem spansOf_le {batches batches' : Multiset (List RawSpan)} (h : batches ≤ batches') :
    spansOf batches ≤ spansOf batches' := by
  obtain ⟨rest, rfl⟩ := Multiset.le_iff_exists_add.1 h
  rw [spansOf, spansOf, Multiset.add_bind]
  exact Multiset.le_add_right ..

theorem spansOf_coe (batches : List (List RawSpan)) : spansOf ↑batches = ↑batches.flatten := by
  rw [spansOf, List.flatten_eq_flatMap]
  exact Multiset.coe_bind ..

/-- A step pushes as many spans as it adds to the queues and the batches. -/
private theorem Flow.balance {b b' : Buffers T} (h : Flow b b') :
    (↑b'.history.pushed : Multiset RawSpan) + (↑b.queued + spansOf b.sent) =
      ↑b.history.pushed + (↑b'.queued + spansOf b'.sent) := by
  cases h with
  | still hqueues hpushed hsent => rw [hpushed, hsent, Buffers.queued, Buffers.queued, hqueues]
  | @queued i queue span hqueue hlen hqueues hpushed hsent =>
    have hset := flatMap_set hqueue SpanQueue.spans { spans := queue.spans ++ [span] }
    rw [← Multiset.coe_add queue.spans [span], add_comm (↑queue.spans : Multiset RawSpan), ← add_assoc] at hset
    rw [hpushed, hsent, Buffers.queued, Buffers.queued, hqueues, add_right_cancel hset, ← Multiset.coe_add]
    abel
  | @batch i queue last hqueue hlen hqueues hpushed hsent =>
    have hset := flatMap_set hqueue SpanQueue.spans {}
    rw [Multiset.coe_nil, add_zero] at hset
    rw [hpushed, hsent, spansOf, spansOf, Multiset.cons_bind, ← Multiset.coe_add, ← Multiset.coe_add, Buffers.queued,
      Buffers.queued, hqueues, ← hset]
    abel

structure Accounted (b : Buffers T) : Prop where
  orderly : Orderly b
  pushed : (↑b.history.pushed : Multiset RawSpan) = ↑b.queued + spansOf b.sent
  queue_lt : ∀ queue ∈ b.queues, queue.spans.length < defaultBatchSize
  batch_le : ∀ batch ∈ b.sent, batch.length ≤ defaultBatchSize

section Run

variable [DecidableEq T] {b b' : Buffers T} {t : T}

omit [DecidableEq T] in
private theorem accounted_flow (h : Accounted b) (ho : Orderly b') (hflow : Flow b b') : Accounted b' := by
  have hpushed : (↑b'.history.pushed : Multiset RawSpan) = ↑b'.queued + spansOf b'.sent := by
    have hbalance := hflow.balance
    rw [← h.pushed, add_comm] at hbalance
    exact add_left_cancel hbalance
  cases hflow with
  | still hqueues _ hsent => exact ⟨ho, hpushed, by rw [hqueues]; exact h.queue_lt, by rw [hsent]; exact h.batch_le⟩
  | @queued i queue span hqueue hlen hqueues _ hsent =>
    have hlt := h.queue_lt queue (List.mem_of_getElem? hqueue)
    refine ⟨ho, hpushed, fun q hq => ?_, by rw [hsent]; exact h.batch_le⟩
    rw [hqueues] at hq
    rcases List.mem_or_eq_of_mem_set hq with hq | rfl
    · exact h.queue_lt q hq
    · rw [List.length_append, List.length_singleton] at hlen ⊢
      omega
  | @batch i queue last hqueue hlen hqueues _ hsent =>
    have hlt := h.queue_lt queue (List.mem_of_getElem? hqueue)
    refine ⟨ho, hpushed, fun q hq => ?_, fun batch hbatch => ?_⟩
    · rw [hqueues] at hq
      rcases List.mem_or_eq_of_mem_set hq with hq | rfl
      · exact h.queue_lt q hq
      · decide
    · rw [hsent, Multiset.mem_cons] at hbatch
      rcases hbatch with rfl | hbatch
      · rcases hlen with rfl | hlen
        · rw [List.append_nil]
          exact hlt.le
        · exact hlen.le
      · exact h.batch_le batch hbatch

omit [DecidableEq T] in
private theorem accounted_init (shardNum : Nat) (hpos : 0 < shardNum) :
    Accounted (World.init shardNum hpos : World T).buffers := by
  refine ⟨⟨fun u => by simp [World.init, World.buffers, Phase.holds], List.nodup_nil, fun _ _ => rfl⟩, ?_, ?_, ?_⟩
  · have hqueued : (World.init shardNum hpos : World T).buffers.queued = [] := by
      rw [Buffers.queued, List.flatMap_eq_nil_iff]
      intro queue hqueue
      rw [List.eq_of_mem_replicate hqueue]
    rw [hqueued]
    rfl
  · intro queue hqueue
    rw [List.eq_of_mem_replicate hqueue]
    decide
  · intro batch hbatch
    cases hbatch

variable {info : T → ThreadInfo} {shardNum : Nat} {hpos : 0 < shardNum} {as : List (T × PanicOp)} {w : World T}

theorem accounted_of_run (hrun : Steps.run (World.act info) (World.init shardNum hpos) as = some w) :
    Accounted w.buffers := by
  refine Steps.run_induction (P := fun w => Accounted (World.buffers w)) ?_ (accounted_init shardNum hpos) hrun
  intro w a w' h hw
  have heffect := act_effect hw
  exact accounted_flow h (heffect.orderly h.orderly) (heffect.flow h.orderly)

end Run

/-- What has been consumed has been sent. -/
theorem consumed_le_sent (b : Buffers T) :
    (↑(b.consumed.flatMap Prod.snd) : Multiset RawSpan) ≤ spansOf b.sent := by
  have hsent : Multiset.ofList (b.consumed.map Prod.snd) ≤ b.sent := by
    rw [Buffers.sent, Buffers.done, Buffers.delivered, ← Multiset.coe_add]
    refine le_trans ?_ (Multiset.le_add_left ..)
    rw [add_assoc, add_assoc, add_assoc]
    exact Multiset.le_add_right ..
  rw [List.flatMap_def, ← spansOf_coe]
  exact spansOf_le hsent

/-! ### The places of a span -/

/-- Each pushed span is in one place, and the batches are as small as the queues keep them. -/
structure Conserves (b : Buffers T) : Prop where
  places : (↑b.history.pushed : Multiset RawSpan) = ↑b.queued + ↑(b.inChannels.flatMap Command.spans) +
    ↑(b.buffered.flatMap Command.spans) + ↑b.delivered.flatten + ↑(b.history.overwritten.flatMap Command.spans) +
      ↑b.history.lost.flatten
  once : (↑b.delivered.flatten : Multiset RawSpan) ≤ ↑b.history.pushed
  home : ∀ (i : Nat) (queue : SpanQueue), b.queues[i]? = some queue → ∀ span ∈ queue.spans, span.shard b.shardNum = i
  queue_lt : ∀ queue ∈ b.queues, queue.spans.length < defaultBatchSize
  command_le : ∀ command ∈ b.inChannels ++ b.buffered ++ b.history.overwritten,
    command.spans.length ≤ defaultBatchSize
  batch_le : ∀ batch ∈ b.delivered, batch.length ≤ defaultBatchSize

theorem conserves_of_accounted {b : Buffers T} (h : Accounted b)
    (hhome : ∀ (i : Nat) (queue : SpanQueue), b.queues[i]? = some queue → ∀ span ∈ queue.spans,
      span.shard b.shardNum = i)
    (hrefused : b.history.refused = []) : Conserves b := by
  have hsent : b.sent = batchesOf b.inChannels + batchesOf b.buffered + (Multiset.ofList b.delivered +
      batchesOf b.history.overwritten + Multiset.ofList b.history.lost) := by
    rw [Buffers.sent, Buffers.done, hrefused, batchesOf_nil, add_zero]
  have hplaces : (↑b.history.pushed : Multiset RawSpan) = ↑b.queued + ↑(b.inChannels.flatMap Command.spans) +
      ↑(b.buffered.flatMap Command.spans) + ↑b.delivered.flatten +
        ↑(b.history.overwritten.flatMap Command.spans) + ↑b.history.lost.flatten := by
    rw [h.pushed, hsent]
    simp only [spansOf, Multiset.add_bind]
    change _ + (spansOf (batchesOf b.inChannels) + spansOf (batchesOf b.buffered) + (spansOf ↑b.delivered +
      spansOf (batchesOf b.history.overwritten) + spansOf ↑b.history.lost)) = _
    rw [spansOf_batchesOf, spansOf_batchesOf, spansOf_batchesOf, spansOf_coe, spansOf_coe]
    abel
  refine ⟨hplaces, ?_, hhome, h.queue_lt, fun command hcommand => ?_, fun batch hbatch => ?_⟩
  · rw [hplaces, add_assoc, add_right_comm]
    exact Multiset.le_add_left ..
  · refine h.batch_le command.spans ?_
    rw [hsent, Multiset.mem_add, Multiset.mem_add, Multiset.mem_add, Multiset.mem_add]
    have hmem : ∀ commands : List Command, command ∈ commands → command.spans ∈ batchesOf commands :=
      fun commands hmem => Multiset.mem_map_of_mem _ hmem
    rcases List.mem_append.1 hcommand with hmem' | hmem'
    · rcases List.mem_append.1 hmem' with hmem' | hmem'
      · exact Or.inl (Or.inl (hmem _ hmem'))
      · exact Or.inl (Or.inr (hmem _ hmem'))
    · exact Or.inr (Or.inl (Or.inr (hmem _ hmem')))
  · refine h.batch_le batch ?_
    rw [hsent, Multiset.mem_add, Multiset.mem_add, Multiset.mem_add]
    exact Or.inr (Or.inl (Multiset.mem_add.2 (Or.inl hbatch)))

end RtTrace
