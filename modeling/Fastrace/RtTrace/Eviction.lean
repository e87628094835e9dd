import Fastrace.RtTrace.FlushCall

/-!
# What the ring buffer loses

`flush` sends a command for each shard, whether the shard holds spans or not, and every command takes one of the
`2 * SHARD_NUM` places of the ring buffer.  So commands without spans push out commands with spans: a flush delivers
all spans sent since the last one exactly when the commands beyond the last `2 * SHARD_NUM` collected since then are
all empty and `consume` does not panic before the last batch with spans (`flush_delivers_iff`).  Three flush calls at
once lose a span even if it is the only one (`empty_flushes_evict`).
-/

namespace RtTrace

variable {T : Type}

/-- The commands in the ring buffer are the last ones collected. -/
structure Filled (b : Buffers T) : Prop where
  split : b.history.evicted ++ b.buffered = b.history.collected
  full : b.history.evicted ≠ [] → b.buffered.length = b.shardNum * 2
  length_le : b.buffered.length ≤ b.shardNum * 2
  capacity : ∀ buf, b.commandBuf = some buf → buf.capacity = b.shardNum * 2
  sent : (↑b.history.sent : Multiset Command) = ↑b.history.collected + ↑b.inChannels

private theorem Filled.evicted_eq {b : Buffers T} (h : Filled b) :
    b.history.evicted = b.history.collected.take (b.history.collected.length - b.shardNum * 2) := by
  have hlen := congrArg List.length h.split
  rw [List.length_append] at hlen
  rw [← h.split]
  by_cases hnil : b.history.evicted = []
  · rw [hnil] at hlen ⊢
    rw [List.nil_append, show b.buffered.length - b.shardNum * 2 = 0 from Nat.sub_eq_zero_of_le h.length_le,
      List.take_zero]
  · rw [List.length_append, h.full hnil, Nat.add_sub_cancel, List.take_left]

section Step

variable [DecidableEq T] {b b' : Buffers T} {t : T}

omit [DecidableEq T] in
private theorem filled_of_same (h : Filled b) (hshard : b'.shardNum = b.shardNum)
    (hbuf : b'.commandBuf = b.commandBuf) (hevicted : b'.history.evicted = b.history.evicted)
    (hcollected : b'.history.collected = b.history.collected)
    (hsent : (↑b'.history.sent : Multiset Command) = ↑b'.history.collected + ↑b'.inChannels) : Filled b' := by
  have hbuffered : b'.buffered = b.buffered := by rw [Buffers.buffered, hbuf]; rfl
  refine ⟨?_, ?_, ?_, ?_, hsent⟩
  · rw [hevicted, hbuffered, hcollected, h.split]
  · rw [hevicted, hbuffered, hshard]
    exact h.full
  · rw [hbuffered, hshard]
    exact h.length_le
  · rw [hbuf, hshard]
    exact h.capacity

private theorem filled_sends {b₁ : Buffers T} {command : Command} (h : Filled b) (ho : Orderly b₁)
    (hsend : Sends b₁ t command b') (hrefused : b'.history.refused = []) (hshard : b₁.shardNum = b.shardNum)
    (hbuf : b₁.commandBuf = b.commandBuf) (hchannels : b₁.inChannels = b.inChannels)
    (hevicted : b₁.history.evicted = b.history.evicted) (hcollected : b₁.history.collected = b.history.collected)
    (hsent : b₁.history.sent = b.history.sent) : Filled b' := by
  have hframe : b'.shardNum = b₁.shardNum ∧ b'.history.evicted = b₁.history.evicted ∧
      b'.history.collected = b₁.history.collected := by
    cases hsend <;> exact ⟨rfl, rfl, rfl⟩
  refine filled_of_same h (hframe.1.trans hshard) (hsend.frame.2.1.trans hbuf) (hframe.2.1.trans hevicted)
    (hframe.2.2.trans hcollected) ?_
  rcases hsend.inChannels ho with ⟨-, hsent', hchannels'⟩ | ⟨hrefused', -⟩
  · rw [hsent', hsent, hchannels', hchannels, hframe.2.2, hcollected, ← Multiset.coe_add, h.sent]
    abel
  · rw [hrefused'] at hrefused
    simp at hrefused

private theorem filled_received (h : Filled b) (ho : Orderly b) {index : Nat} {u : T} {command : Command}
    {rest : List Command} {buf : RingBuffer Command} (hu : b.receivers[index]? = some u)
    (hchannel : b.channel u = command :: rest) (hbuf : b.IsBuf buf) : Filled { b with
      channel := Function.update b.channel u rest
      commandBuf := some (buf.pushOverwrite command)
      history := b.history.collect buf command } := by
  have hcapacity : buf.capacity = b.shardNum * 2 := by
    rcases hbuf with hbuf | ⟨-, -, hcapacity⟩
    · exact h.capacity buf hbuf
    · exact hcapacity
  have hbuffered := hbuf.buffered
  have hitems := buf.pushOverwrite_items command
  refine ⟨?_, fun hevicted => ?_, ?_, fun buf' hbuf' => ?_, ?_⟩
  · change (b.history.evicted ++ buf.overwritten.toList) ++ (buf.pushOverwrite command).items =
      b.history.collected ++ [command]
    rw [List.append_assoc, hitems, ← List.append_assoc, ← hbuffered, h.split]
  · change (buf.pushOverwrite command).items.length = b.shardNum * 2
    have hfull : buf.items.length = buf.capacity := by
      by_contra hne
      have hlt := Nat.lt_of_le_of_ne buf.items_length_le hne
      change b.history.evicted ++ buf.overwritten.toList ≠ [] at hevicted
      rw [buf.overwritten_of_lt hlt, Option.toList_none, List.append_nil] at hevicted
      have hlen := h.full hevicted
      rw [hbuffered] at hlen
      omega
    have hone := buf.overwritten_of_full hfull
    have hlen := congrArg List.length hitems
    rw [List.length_append, List.length_append, List.length_singleton] at hlen
    omega
  · change (buf.pushOverwrite command).items.length ≤ b.shardNum * 2
    rw [← hcapacity, ← buf.capacity_pushOverwrite command]
    exact RingBuffer.items_length_le _
  · cases hbuf'
    exact (buf.capacity_pushOverwrite command).trans hcapacity
  · have hupdate := flatMap_update ho.receivers (List.mem_of_getElem? hu) b.channel rest
    rw [hchannel, ← Multiset.cons_coe, ← Multiset.singleton_add, ← add_assoc] at hupdate
    have hchannels := add_right_cancel hupdate
    change (↑b.history.sent : Multiset Command) = ↑(b.history.collected ++ [command]) +
      ↑(b.receivers.flatMap (Function.update b.channel u rest))
    rw [h.sent, Buffers.inChannels, ← hchannels, ← Multiset.coe_add, Multiset.coe_singleton]
    abel

theorem Filled.step (h : Filled b) (ho : Orderly b) (heffect : Effect b t b') (hrefused : b'.history.refused = []) :
    Filled b' := by
  cases heffect with
  | quiet => exact h
  | moved hold hnew => exact filled_of_same h rfl rfl rfl rfl h.sent
  | pushed hphase hqueue hlen => exact filled_of_same h rfl rfl rfl rfl h.sent
  | pushedLast hphase hqueue hlen hsend =>
    have hset := orderly_setPhase (p := .idle) ho (by rw [hphase]; rfl)
    refine filled_sends h ?_ hsend hrefused rfl rfl rfl rfl rfl rfl
    exact ⟨hset.holds, hset.receivers, hset.unregistered⟩
  | @flushed index queue b' hphase hqueue hsend =>
    have hset := orderly_setPhase (p := .flushing (index + 1)) ho (by rw [hphase]; rfl)
    refine filled_sends h ?_ hsend hrefused rfl rfl rfl rfl rfl rfl
    exact ⟨hset.holds, hset.receivers, hset.unregistered⟩
  | locked hphase hlock => exact filled_of_same h rfl rfl rfl rfl h.sent
  | visited hphase hu hnil => exact filled_of_same h rfl rfl rfl rfl h.sent
  | received hphase hu hchannel hbuf => exact filled_received h ho hu hchannel hbuf
  | collected hphase hlast => exact filled_of_same h rfl rfl rfl rfl h.sent
  | @drained buf hphase hbuf =>
    have hitems : (some buf.drain.2 : Option (RingBuffer Command)).map RingBuffer.items = some [] := by
      rw [Option.map_some, buf.items_drain]
    refine ⟨?_, fun hne => absurd rfl hne, ?_, fun buf' hbuf' => ?_, ?_⟩
    · change [] ++ ((some buf.drain.2).map RingBuffer.items).getD [] = []
      rw [hitems]
      rfl
    · change (((some buf.drain.2).map RingBuffer.items).getD []).length ≤ _
      rw [hitems]
      exact Nat.zero_le _
    · cases hbuf'
      exact h.capacity buf hbuf
    · change (↑(b.receivers.flatMap b.channel) : Multiset Command) = ↑([] : List Command) + ↑b.inChannels
      rw [Multiset.coe_nil, zero_add]
      rfl
  | consumed descriptors hphase => exact filled_of_same h rfl rfl rfl rfl h.sent
  | released hphase => exact filled_of_same h rfl rfl rfl rfl h.sent
  | unwound descriptors hphase => exact filled_of_same h rfl rfl rfl rfl h.sent

end Step

section Run

variable [DecidableEq T] {info : T → ThreadInfo} {shardNum : Nat} {hpos : 0 < shardNum} {as : List (T × PanicOp)}
  {w : World T}

private theorem filled_of_run (hrun : Steps.run (World.act info) (World.init shardNum hpos) as = some w)
    (hsends : w.history.refused = []) : Filled w.buffers := by
  have hboth : Orderly w.buffers ∧ (w.history.refused = [] → Filled w.buffers) := by
    refine Steps.run_induction (P := fun w => Orderly (World.buffers w) ∧
      (w.history.refused = [] → Filled w.buffers)) ?_ ⟨?_, fun _ => ?_⟩ hrun
    · rintro w a w' ⟨ho, hfilled⟩ hw
      have heffect := act_effect hw
      refine ⟨heffect.orderly ho, fun hrefused => ?_⟩
      have hprefix : w.history.refused <+: w'.history.refused := heffect.grows.refused
      rw [hrefused, List.prefix_nil] at hprefix
      exact (hfilled hprefix).step ho heffect hrefused
    · exact ⟨fun u => by simp [World.init, World.buffers, Phase.holds], List.nodup_nil, fun _ _ => rfl⟩
    · exact ⟨rfl, fun h => absurd rfl h, Nat.zero_le _, fun _ h => (by cases h), rfl⟩
  exact hboth.2 hsends

end Run

/-! ### Passing the batches on -/

/-- What the flush call of `t` has still to pass to the consumer, once it has collected. -/
def Buffers.inHand (b : Buffers T) (t : T) : List (List RawSpan) :=
  match b.phase t with
  | .collected true => b.buffered.map Command.spans
  | .delivering batches => batches
  | _ => []

/-- The flush call of `t` has collected. -/
def Phase.passesOn : Phase → Bool
  | .collected true => true
  | .delivering _ => true
  | _ => false

/-- If `consume` panics in a step of `t`, no batch behind the one it has been given holds a span. -/
def LosesNothing (t : T) (w : World T) (a : T × PanicOp) : Prop :=
  a.1 = t → a.2.panics = true → (w.consumes t a.2.op).isSome = true →
    ∀ batch ∈ (w.phase t).batches.tail, batch = []

private theorem holds_of_passesOn {p : Phase} (h : p.passesOn = true) : p.holds = true := by
  unfold Phase.passesOn at h
  split at h <;> first | rfl | cases h

section Pass

variable [DecidableEq T]

instance (t : T) (w : World T) (a : T × PanicOp) : Decidable (LosesNothing t w a) :=
  inferInstanceAs (Decidable (_ → _ → _ → _))

/-- A step passes a batch on, or loses the ones behind it, or leaves all in hand. -/
structure Passes (t : T) (b b' : Buffers T) : Prop where
  passed : ∃ taken lost, b'.consumed = b.consumed ++ taken ∧ b'.history.lost = b.history.lost ++ lost ∧
    Multiset.ofList (b.inHand t) =
      Multiset.ofList (taken.map Prod.snd) + Multiset.ofList lost + Multiset.ofList (b'.inHand t)
  phase : (b'.phase t).passesOn = true ∨ b'.phase t = .idle

variable {b b' : Buffers T} {t u : T}

omit [DecidableEq T] in
private theorem passes_of_kept (hconsumed : b'.consumed = b.consumed) (hlost : b'.history.lost = b.history.lost)
    (hinHand : b'.inHand t = b.inHand t) (hphase : (b'.phase t).passesOn = true ∨ b'.phase t = .idle) :
    Passes t b b' := by
  refine ⟨⟨[], [], hconsumed.trans (List.append_nil _).symm, hlost.trans (List.append_nil _).symm, ?_⟩, hphase⟩
  rw [hinHand]
  exact (zero_add _).symm

omit [DecidableEq T] in
/-- Another thread changes nothing of it. -/
private theorem Bystands.passes (h : Bystands t b b') (hphase : (b.phase t).passesOn = true) : Passes t b b' := by
  have hbuffered : b'.buffered = b.buffered := by rw [Buffers.buffered, h.commandBuf]; rfl
  refine passes_of_kept h.consumed h.lost ?_ (Or.inl (h.phase ▸ hphase))
  rw [Buffers.inHand, Buffers.inHand, h.phase, hbuffered]

/-- What `t` itself does. -/
private theorem Effect.passes (h : Effect b t b') (hphase : (b.phase t).passesOn = true) : Passes t b b' := by
  cases h with
  | quiet => exact passes_of_kept rfl rfl rfl (Or.inl hphase)
  | @drained buf hcollected hbuf =>
    refine passes_of_kept rfl rfl ?_ (Or.inl ?_)
    · have hbuffered : b.buffered = buf.items := Buffers.IsBuf.buffered (Or.inl hbuf)
      simp [Buffers.inHand, Buffers.setPhase, hcollected, hbuffered]
    · simp [Buffers.setPhase, Phase.passesOn]
  | @consumed batch batches descriptors hdelivering =>
    refine ⟨⟨[(descriptors, batch)], [], rfl, (List.append_nil _).symm, ?_⟩, Or.inl ?_⟩
    · simp only [Buffers.inHand, Buffers.setPhase, hdelivering, Function.update_self]
      rfl
    · simp [Buffers.setPhase, Phase.passesOn]
  | released hreleased =>
    refine passes_of_kept rfl rfl ?_ (Or.inr (Function.update_self ..))
    rcases hreleased with h | ⟨h, hnone⟩ | h
    · rw [h] at hphase
      cases hphase
    · simp [Buffers.inHand, Buffers.setPhase, h, Buffers.buffered, hnone]
    · simp [Buffers.inHand, Buffers.setPhase, h]
  | @unwound batch batches descriptors hdelivering =>
    refine ⟨⟨[(descriptors, batch)], batches, rfl, rfl, ?_⟩, Or.inr (Function.update_self ..)⟩
    simp only [Buffers.inHand, Buffers.setPhase, hdelivering, Function.update_self]
    rw [Multiset.coe_nil, add_zero]
    rfl
  | moved hold hnew =>
    rw [holds_of_passesOn hphase] at hold
    cases hold
  | pushed h | pushedLast h | flushed h | locked h | visited h | received h | collected h =>
    rw [h] at hphase
    cases hphase

variable {info : T → ThreadInfo} {w w' : World T}

private theorem act_lost {a : PanicOp} (hw : w.act info (u, a) = some w') :
    w'.history.lost = w.history.lost ++
      if a.panics && (w.consumes u a.op).isSome then (w.phase u).batches.tail else [] := by
  obtain ⟨w₁, hstep, rfl⟩ := Option.map_eq_some_iff.1 hw
  split
  · rename_i hpanics
    rw [Bool.and_eq_true, Option.isSome_iff_exists] at hpanics
    obtain ⟨-, ⟨order, batch⟩, hconsumes⟩ := hpanics
    obtain ⟨hop, batches, hphase⟩ := consumes_eq_some.1 hconsumes
    rw [hop] at hstep
    change w.next info u order = some w₁ at hstep
    rw [World.next, hphase] at hstep
    cases hstep
    simp [World.unwind, World.setPhase, hphase, Phase.batches]
  · rw [List.append_nil, step_lost hstep]

/-- The batches that a step of the flush call loses hold no span just when the step meets the condition. -/
private theorem lost_iff {a : PanicOp} (hbystands : u ≠ t → Bystands t w.buffers w'.buffers)
    (hw : w.act info (u, a) = some w') {lost : List (List RawSpan)}
    (hlost : w'.history.lost = w.history.lost ++ lost) :
    (∀ batch ∈ lost, batch = []) ↔ LosesNothing t w (u, a) := by
  by_cases hu : u = t
  · subst hu
    have hlost' := List.append_cancel_left (hlost.symm.trans (act_lost hw))
    rw [hlost']
    unfold LosesNothing
    simp only [true_imp_iff]
    cases a.panics <;> cases (w.consumes u a.op).isSome <;> simp
  · have hsame : w'.history.lost = w.history.lost := (hbystands hu).lost
    rw [hsame, List.self_eq_append_right] at hlost
    subst hlost
    exact ⟨fun _ h => absurd h hu, fun _ batch hbatch => by cases hbatch⟩

/-- From the end of its collect on, a flush call passes on what is in the ring buffer, or loses it. -/
private theorem passes_of_run {during : List (T × PanicOp)} (ho : Orderly w.buffers)
    (hphase : (w.phase t).passesOn = true)
    (hrun : Steps.run (World.act info) w during = some w')
    (hmeet : Steps.Meet (World.act info) (fun w _ => (World.phase w t).holds = true) w during)
    (hend : w'.phase t = .idle) :
    ∃ taken lost, w'.consumed = w.consumed ++ taken ∧
      Multiset.ofList (w.buffers.inHand t) = Multiset.ofList (taken.map Prod.snd) + Multiset.ofList lost ∧
      ((∀ batch ∈ lost, batch = []) ↔ Steps.Meet (World.act info) (LosesNothing t) w during) := by
  induction during generalizing w with
  | nil =>
    cases hrun
    rw [hend] at hphase
    cases hphase
  | cons a during ih =>
    obtain ⟨u, a⟩ := a
    obtain ⟨w₁, hw, hrun⟩ := Option.bind_eq_some_iff.1 hrun
    have heffect := act_effect hw
    have hlock : w.buffers.lock = some t := (ho.holds t).1 (holds_of_passesOn hphase)
    have hbystands : u ≠ t → Bystands t w.buffers w₁.buffers := heffect.bystands ho hlock
    have hpasses : Passes t w.buffers w₁.buffers := by
      by_cases hu : u = t
      · subst hu
        exact heffect.passes hphase
      · exact (hbystands hu).passes hphase
    obtain ⟨⟨taken, lost, htaken, hlost, hinHand⟩, hphase₁⟩ := hpasses
    have hiff := lost_iff hbystands hw hlost
    have hmeets : Steps.Meet (World.act info) (LosesNothing t) w ((u, a) :: during) ↔
        LosesNothing t w (u, a) ∧ Steps.Meet (World.act info) (LosesNothing t) w₁ during := by
      rw [Steps.Meet, hw]
      simp
    rcases hphase₁ with hphase₁ | hidle
    · obtain ⟨taken', lost', htaken', hinHand', hiff'⟩ := ih (heffect.orderly ho) hphase₁ hrun (hmeet.2 w₁ hw)
      refine ⟨taken ++ taken', lost ++ lost', ?_, ?_, ?_⟩
      · rw [htaken', ← List.append_assoc]
        exact congrArg (· ++ taken') htaken
      · rw [hinHand, hinHand', List.map_append, ← Multiset.coe_add, ← Multiset.coe_add lost]
        abel
      · rw [hmeets, ← hiff, ← hiff', List.forall_mem_append]
    · -- the call is over, and no step is left
      have hnil : during = [] := by
        cases during with
        | nil => rfl
        | cons b bs =>
          have hholds := (hmeet.2 w₁ hw).1
          change (w₁.phase t).holds = true at hholds
          rw [show w₁.phase t = .idle from hidle] at hholds
          cases hholds
      subst hnil
      cases hrun
      refine ⟨taken, lost, htaken, ?_, ?_⟩
      · rw [hinHand, show w'.buffers.inHand t = [] by rw [Buffers.inHand, hidle]]
        exact add_zero _
      · rw [hmeets, ← hiff]
        exact ⟨fun h => ⟨h, trivial⟩, And.left⟩

end Pass

section Claim

variable [DecidableEq T]

/-- A flush delivers the spans of the commands sent since the last one, but for those sent to a channel that its collect
had already left, exactly when the commands that no longer fit into the ring buffer are empty and no batch with spans is
behind one at which `consume` panics. -/
theorem flush_delivers_iff {info : T → ThreadInfo} {shardNum : Nat} {hpos : 0 < shardNum} {as : List (T × PanicOp)}
    {w : World T} (hrun : Steps.run (World.act info) (World.init shardNum hpos) as = some w)
    (hsends : w.history.refused = []) {t : T} {during : List (T × PanicOp)} {w' : World T}
    (hcall : FlushCall info t (.collected true) w during w') :
    ∃ taken, w'.consumed = w.consumed ++ taken ∧
      ((↑(w.history.sent.flatMap Command.spans) : Multiset RawSpan) =
          ↑(taken.flatMap Prod.snd) + ↑(w.buffers.inChannels.flatMap Command.spans) ↔
        (∀ command ∈ w.history.collected.take (w.history.collected.length - w.shardNum * 2), command.spans = []) ∧
          Steps.Meet (World.act info) (LosesNothing t) w during) := by
  obtain ⟨hphase, hduring, hmeet, hend⟩ := hcall
  have hfilled := filled_of_run hrun hsends
  obtain ⟨taken, lost, htaken, hinHand, hlost⟩ := passes_of_run (accounted_of_run hrun).orderly
    (by rw [hphase]; rfl) hduring hmeet hend
  refine ⟨taken, htaken, ?_⟩
  have hbuffered : (↑(w.buffers.buffered.flatMap Command.spans) : Multiset RawSpan) =
      ↑(taken.flatMap Prod.snd) + ↑lost.flatten := by
    have hspans := congrArg spansOf hinHand
    rw [Buffers.inHand, show w.buffers.phase t = .collected true from hphase] at hspans
    rwa [spansOf, spansOf, Multiset.add_bind, ← spansOf, ← spansOf, ← spansOf, spansOf_coe, spansOf_coe, spansOf_coe,
      ← List.flatMap_def, ← List.flatMap_def] at hspans
  have hsent : (↑(w.history.sent.flatMap Command.spans) : Multiset RawSpan) =
      ↑(w.history.evicted.flatMap Command.spans) + ↑lost.flatten + (↑(taken.flatMap Prod.snd) +
        ↑(w.buffers.inChannels.flatMap Command.spans)) := by
    have hbind := congrArg (Multiset.bind · fun command => (↑command.spans : Multiset RawSpan)) hfilled.sent
    simp only [Multiset.add_bind, Multiset.coe_bind] at hbind
    change (↑(w.history.sent.flatMap Command.spans) : Multiset RawSpan) =
      ↑(w.history.collected.flatMap Command.spans) + _ at hbind
    have hcollected : (↑(w.history.collected.flatMap Command.spans) : Multiset RawSpan) =
        ↑(w.history.evicted.flatMap Command.spans) + ↑(w.buffers.buffered.flatMap Command.spans) := by
      rw [Multiset.coe_add, ← List.flatMap_append]
      exact congrArg _ (congrArg (List.flatMap Command.spans) hfilled.split.symm)
    rw [hbind, hcollected, hbuffered]
    abel
  have hevicted : w.history.evicted = w.history.collected.take (w.history.collected.length - w.shardNum * 2) :=
    hfilled.evicted_eq
  rw [hsent, ← hevicted, ← hlost, add_eq_right, Multiset.coe_add, Multiset.coe_eq_zero, List.append_eq_nil_iff,
    List.flatMap_eq_nil_iff, List.flatten_eq_nil_iff]

end Claim

/-- The flush call of `b` has collected the commands of two flush calls, which fit into the ring buffer. -/
def collectedTwo : World TwoThreads := runFrom twoThreads beforeFirst (nexts .b 35)

def deliveredTwo : World TwoThreads := runFrom twoThreads collectedTwo (nexts .b 34)

theorem flush_delivers_two : ∃ taken, deliveredTwo.consumed = collectedTwo.consumed ++ taken ∧
    (↑(collectedTwo.history.sent.flatMap Command.spans) : Multiset RawSpan) =
      ↑(taken.flatMap Prod.snd) + ↑(collectedTwo.buffers.inChannels.flatMap Command.spans) := by
  have hbefore : Steps.run (World.act twoThreads) (World.init 16 sixteen_pos) (quietly twoFlushes) = some beforeFirst :=
    run_quietly (run_eq_runFrom (by decide +kernel))
  have hcollect : Steps.run (World.act twoThreads) beforeFirst (quietly (nexts .b 35)) = some collectedTwo :=
    run_quietly (run_eq_runFrom (by decide +kernel))
  have hcall : FlushCall twoThreads .b (.collected true) collectedTwo (quietly (nexts .b 34)) deliveredTwo :=
    ⟨by decide +kernel, run_quietly (run_eq_runFrom (by decide +kernel)), by decide +kernel, by decide +kernel⟩
  obtain ⟨taken, htaken, hiff⟩ := flush_delivers_iff (Steps.run_trans hbefore hcollect) (by decide +kernel) hcall
  exact ⟨taken, htaken, hiff.2 ⟨by decide +kernel, by decide +kernel⟩⟩

/-! ### Three flush calls at once -/

inductive ThreeThreads where
  | a
  | b
  | c
deriving DecidableEq, Repr

def threeThreads : ThreeThreads → ThreadInfo
  | .a => ⟨1, some "a"⟩
  | .b => ⟨2, some "b"⟩
  | .c => ⟨3, some "c"⟩

/-- `a` drops its span; then all three flush the shards, and `c` gets the lock and collects. -/
def threeFlushes : List (ThreeThreads × Op) := List.flatten [
  [(.a, .threadStart), (.b, .threadStart), (.c, .threadStart), (.a, .start), (.a, .span 0 .runtimePark ⟨5⟩),
    (.a, .dropSpan 0 ⟨6⟩)],
  nexts .a 1, [(.a, .flush)], nexts .a 17, [(.b, .flush)], nexts .b 17, [(.c, .flush)], nexts .c 70]

def collectedThree : World ThreeThreads := runFrom threeThreads (World.init 16 sixteen_pos) threeFlushes

def deliveredThree : World ThreeThreads := runFrom threeThreads collectedThree (nexts .c 34)

/-- One command of the 48 is not empty, and it is not delivered. -/
theorem empty_flushes_evict :
    Steps.run (World.act threeThreads) (World.init 16 sixteen_pos) (quietly threeFlushes) = some collectedThree ∧
      FlushCall threeThreads .c (.collected true) collectedThree (quietly (nexts .c 34)) deliveredThree ∧
      collectedThree.history.refused = [] ∧ collectedThree.buffers.inChannels = [] ∧
      collectedThree.history.sent.countP (fun command => !command.spans.isEmpty) ≤ collectedThree.shardNum * 2 ∧
      collectedThree.history.sent.flatMap Command.spans = [overtakenSpan] ∧
      deliveredThree.consumed.flatMap Prod.snd = [] := by
  refine ⟨run_quietly (run_eq_runFrom (by decide +kernel)), ⟨by decide +kernel,
    run_quietly (run_eq_runFrom (by decide +kernel)), by decide +kernel, by decide +kernel⟩, ?_⟩
  decide +kernel

end RtTrace
