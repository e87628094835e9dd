import Fastrace.RtTrace.Conservation

/-!
# What a flush call delivers

A flush call holds the lock of the consumer from its collect on.  Whatever lies in the channels and in the ring buffer
when the collect begins is in the hands of that call (`Taking`), and when it returns it has been consumed or
overwritten, or was still to be passed on when `consume` panicked (`lost_in_panic`).  A span flushed by the call itself
may have been taken before that by another flush call, which was faster to get the lock (`taken_by_another_flush`).
-/

namespace RtTrace

variable {T : Type}

/-! ### What a flush call takes -/

section Taking

variable [DecidableEq T] {b b' : Buffers T} {t u : T}

/-- What has been consumed, overwritten, refused or lost stays so. -/
structure Grows (b b' : Buffers T) : Prop where
  consumed : b.consumed <+: b'.consumed
  overwritten : b.history.overwritten <+: b'.history.overwritten
  refused : b.history.refused <+: b'.history.refused
  lost : b.history.lost <+: b'.history.lost

omit [DecidableEq T] in
private theorem Grows.refl (b : Buffers T) : Grows b b :=
  ⟨List.prefix_rfl, List.prefix_rfl, List.prefix_rfl, List.prefix_rfl⟩

omit [DecidableEq T] in
private theorem Grows.trans {b'' : Buffers T} (h : Grows b b') (h' : Grows b' b'') : Grows b b'' :=
  ⟨h.consumed.trans h'.consumed, h.overwritten.trans h'.overwritten, h.refused.trans h'.refused,
    h.lost.trans h'.lost⟩

private theorem Sends.grows {command : Command} (h : Sends b t command b') : Grows b b' := by
  cases h with
  | refused hmem hfull => exact ⟨List.prefix_rfl, List.prefix_rfl, List.prefix_append .., List.prefix_rfl⟩
  | _ => exact ⟨List.prefix_rfl, List.prefix_rfl, List.prefix_rfl, List.prefix_rfl⟩

theorem Effect.grows (h : Effect b t b') : Grows b b' := by
  cases h with
  | pushedLast hphase hqueue hlen hsend | flushed hphase hqueue hsend =>
    exact ⟨hsend.grows.consumed, hsend.grows.overwritten, hsend.grows.refused, hsend.grows.lost⟩
  | received hphase hu hchannel hbuf =>
    exact ⟨List.prefix_rfl, List.prefix_append .., List.prefix_rfl, List.prefix_rfl⟩
  | consumed descriptors hphase =>
    exact ⟨List.prefix_append .., List.prefix_rfl, List.prefix_rfl, List.prefix_rfl⟩
  | unwound descriptors hphase =>
    exact ⟨List.prefix_append .., List.prefix_rfl, List.prefix_rfl, List.prefix_append ..⟩
  | _ => exact ⟨List.prefix_rfl, List.prefix_rfl, List.prefix_rfl, List.prefix_rfl⟩

private theorem batchesOf_le {commands commands' : List Command} (h : commands <+: commands') :
    batchesOf commands ≤ batchesOf commands' := by
  obtain ⟨rest, rfl⟩ := h
  rw [batchesOf_append]
  exact Multiset.le_add_right ..

private theorem Effect.past_le (h : Effect b t b') : b.past ≤ b'.past := by
  obtain ⟨hconsumed, hoverwritten, hrefused, hlost⟩ := h.grows
  refine add_le_add (add_le_add (add_le_add ?_ (batchesOf_le hoverwritten)) (batchesOf_le hrefused)) ?_
  · exact Multiset.coe_le.2 (hconsumed.map Prod.snd).sublist.subperm
  · exact Multiset.coe_le.2 hlost.sublist.subperm

private theorem Sends.channel_prefix {command : Command} (h : Sends b t command b') (ho : Orderly b) (v : T) :
    b.channel v <+: b'.channel v := by
  cases h with
  | sent hmem hspace =>
    by_cases hv : v = t
    · subst hv
      simp
    · simp [hv]
  | refused hmem hfull => exact List.prefix_rfl
  | registered hmem hlock =>
    by_cases hv : v = t
    · subst hv
      simp [ho.unregistered v hmem]
    · simp [hv]

private theorem Sends.receivers_eq {command : Command} (h : Sends b t command b') {flush : Bool} {index : Nat}
    (hlock : b.lock = some u) (hphase : b.phase u = .collecting flush index) : b'.receivers = b.receivers := by
  cases h with
  | registered hmem hfree => exact absurd hphase (hfree u flush index hlock)
  | _ => rfl

/-- What `t` with the lock sees of a step of another thread. -/
structure Bystands (t : T) (b b' : Buffers T) : Prop where
  phase : b'.phase t = b.phase t
  commandBuf : b'.commandBuf = b.commandBuf
  consumed : b'.consumed = b.consumed
  lost : b'.history.lost = b.history.lost
  channel : ∀ v, b.channel v <+: b'.channel v
  receivers : ∀ flush index, b.phase t = .collecting flush index → b'.receivers = b.receivers

private theorem Sends.bystands {b₁ : Buffers T} {p : Phase} {command : Command} (h : Sends b₁ u command b')
    (ho : Orderly b) (hlock : b.lock = some t) (hne : u ≠ t) (hold : (b.phase u).holds = p.holds)
    (hphase : b₁.phase = Function.update b.phase u p) (hbuf : b₁.commandBuf = b.commandBuf)
    (hconsumed : b₁.consumed = b.consumed) (hlost : b₁.history.lost = b.history.lost)
    (hchannel : b₁.channel = b.channel) (hreceivers : b₁.receivers = b.receivers) (hlock₁ : b₁.lock = b.lock) :
    Bystands t b b' := by
  have ho₁ : Orderly b₁ := by
    have hset := orderly_setPhase (p := p) ho hold.symm
    exact ⟨by rw [hphase, hlock₁]; exact hset.holds, by rw [hreceivers]; exact hset.receivers,
      by rw [hreceivers, hchannel]; exact hset.unregistered⟩
  have hsame : b₁.phase t = b.phase t := by rw [hphase, Function.update_of_ne hne.symm]
  obtain ⟨-, hbuf', -, hphase', hconsumed', -, -, hlost'⟩ := h.frame
  refine ⟨by rw [hphase', hsame], hbuf'.trans hbuf, hconsumed'.trans hconsumed, hlost'.trans hlost,
    fun v => hchannel ▸ h.channel_prefix ho₁ v, ?_⟩
  intro flush index hcollecting
  rw [← hreceivers]
  exact h.receivers_eq (hlock₁.trans hlock) (hsame.trans hcollecting)

/-- While `t` holds the lock another thread does no more than send. -/
theorem Effect.bystands (h : Effect b u b') (ho : Orderly b) (hlock : b.lock = some t) (hne : u ≠ t) :
    Bystands t b b' := by
  have hfree : (b.phase u).holds ≠ true := by
    rw [Ne, ho.holds, hlock, Option.some_inj]
    exact fun he => hne he.symm
  have hset : ∀ p : Phase, Bystands t b (b.setPhase u p) :=
    fun p => ⟨Function.update_of_ne hne.symm .., rfl, rfl, rfl, fun _ => List.prefix_rfl, fun _ _ _ => rfl⟩
  cases h with
  | quiet => exact ⟨rfl, rfl, rfl, rfl, fun _ => List.prefix_rfl, fun _ _ _ => rfl⟩
  | moved hold hnew => exact hset _
  | pushed hphase hqueue hlen =>
    exact ⟨(hset .idle).phase, rfl, rfl, rfl, fun _ => List.prefix_rfl, fun _ _ _ => rfl⟩
  | pushedLast hphase hqueue hlen hsend =>
    exact hsend.bystands ho hlock hne (by rw [hphase]; rfl) rfl rfl rfl rfl rfl rfl rfl
  | @flushed index queue b' hphase hqueue hsend =>
    exact hsend.bystands (p := .flushing (index + 1)) ho hlock hne (by rw [hphase]; rfl) rfl rfl rfl rfl rfl rfl rfl
  | locked hphase hnone => rw [hnone] at hlock; cases hlock
  | visited hphase => exact absurd (by rw [hphase]; rfl) hfree
  | received hphase => exact absurd (by rw [hphase]; rfl) hfree
  | collected hphase => exact absurd (by rw [hphase]; rfl) hfree
  | drained hphase => exact absurd (by rw [hphase]; rfl) hfree
  | consumed descriptors hphase => exact absurd (by rw [hphase]; rfl) hfree
  | released hphase => exact absurd (by rcases hphase with h | ⟨h, -⟩ | h <;> rw [h] <;> rfl) hfree
  | unwound descriptors hphase => exact absurd (by rw [hphase]; rfl) hfree

/-- The flush call of `t` has the batches `S` in view: they are past the ring buffer, or where the call still takes
them from. -/
inductive Taking (S : Multiset (List RawSpan)) (t : T) (b : Buffers T) : Prop where
  /-- `old u` is what the channel of `u` held when the collect began and still holds. -/
  | collecting {index : Nat} (old : T → List Command) (hphase : b.phase t = .collecting true index)
      (hold : ∀ u, old u <+: b.channel u) (hvisited : ∀ u ∈ b.receivers.take index, old u = [])
      (hle : S ≤ batchesOf (b.receivers.flatMap old) + batchesOf b.buffered + b.past)
  | collected (hphase : b.phase t = .collected true) (hle : S ≤ batchesOf b.buffered + b.past)
  | delivering {batches : List (List RawSpan)} (hphase : b.phase t = .delivering batches)
      (hle : S ≤ Multiset.ofList batches + b.past)
  | finished (hle : S ≤ b.past)

omit [DecidableEq T] in
private theorem Taking.bystands {S : Multiset (List RawSpan)} (h : Taking S t b) (hb : Bystands t b b')
    (hpast : b.past ≤ b'.past) : Taking S t b' := by
  have hbuffered : b'.buffered = b.buffered := by rw [Buffers.buffered, hb.commandBuf]; rfl
  cases h with
  | collecting old hphase hold hvisited hle =>
    have hreceivers := hb.receivers _ _ hphase
    refine .collecting old (hb.phase.trans hphase) (fun v => (hold v).trans (hb.channel v)) ?_ ?_
    · rw [hreceivers]; exact hvisited
    · rw [hreceivers, hbuffered]
      exact hle.trans (add_le_add_right hpast _)
  | collected hphase hle =>
    refine .collected (hb.phase.trans hphase) ?_
    rw [hbuffered]
    exact hle.trans (add_le_add_right hpast _)
  | delivering hphase hle => exact .delivering (hb.phase.trans hphase) (hle.trans (add_le_add_right hpast _))
  | finished hle => exact .finished (hle.trans hpast)

private theorem taking_received {S : Multiset (List RawSpan)} (ho : Orderly b) {index : Nat} {v : T}
    {command : Command} {rest : List Command} {buf : RingBuffer Command} (hphase : b.phase t = .collecting true index)
    (hv : b.receivers[index]? = some v) (hchannel : b.channel v = command :: rest) (hbuf : b.IsBuf buf)
    {old : T → List Command} (hold : ∀ u, old u <+: b.channel u) (hvisited : ∀ u ∈ b.receivers.take index, old u = [])
    (hle : S ≤ batchesOf (b.receivers.flatMap old) + batchesOf b.buffered + b.past) :
    Taking S t { b with
      channel := Function.update b.channel v rest
      commandBuf := some (buf.pushOverwrite command)
      history := b.history.collect buf command } := by
  have hcollect := collect_batches hbuf command
  have htotal : batchesOf b.buffered + b.past + {command.spans} = batchesOf (buf.pushOverwrite command).items +
      (Multiset.ofList (b.consumed.map Prod.snd) + batchesOf (b.history.overwritten ++ buf.overwritten.toList) +
        batchesOf b.history.refused + Multiset.ofList b.history.lost) := by
    calc _ = batchesOf b.buffered + batchesOf b.history.overwritten + {command.spans} +
          (Multiset.ofList (b.consumed.map Prod.snd) + batchesOf b.history.refused +
            Multiset.ofList b.history.lost) := by rw [Buffers.past]; abel
      _ = _ := by rw [← hcollect]; abel
  -- the received command is an old one unless the channel holds none any more
  cases hcase : old v with
  | nil =>
    refine .collecting old hphase (fun u => ?_) hvisited (hle.trans ?_)
    · by_cases hu : u = v
      · subst hu
        rw [hcase]
        exact List.nil_prefix
      · simpa [hu] using hold u
    · rw [add_assoc, add_assoc]
      refine add_le_add_right ?_ _
      exact htotal ▸ Multiset.le_add_right ..
  | cons command' olds =>
    have hprefix := hold v
    rw [hcase, hchannel, List.cons_prefix_cons] at hprefix
    obtain ⟨rfl, hprefix⟩ := hprefix
    have hupdate := flatMap_update ho.receivers (List.mem_of_getElem? hv) old olds
    have holds : batchesOf (b.receivers.flatMap (Function.update old v olds)) + {command'.spans} =
        batchesOf (b.receivers.flatMap old) := by
      rw [hcase, ← Multiset.cons_coe, ← Multiset.singleton_add, ← add_assoc] at hupdate
      have hmap := congrArg (Multiset.map Command.spans) (add_right_cancel hupdate)
      rwa [Multiset.map_add] at hmap
    refine .collecting (Function.update old v olds) hphase (fun u => ?_) (fun u hu => ?_) (hle.trans (le_of_eq ?_))
    · by_cases hu : u = v
      · subst hu
        simpa using hprefix
      · simpa [hu] using hold u
    · have hne : u ≠ v := by
        rintro rfl
        rw [hvisited u hu] at hcase
        cases hcase
      rw [Function.update_of_ne hne]
      exact hvisited u hu
    · rw [← holds]
      calc _ = batchesOf (b.receivers.flatMap (Function.update old v olds)) +
            (batchesOf b.buffered + b.past + {command'.spans}) := by abel
        _ = _ := by rw [htotal, ← add_assoc]; rfl

/-- What `t` itself does in its flush call; the phase leaves it no other step. -/
private theorem Taking.own {S : Multiset (List RawSpan)} (h : Taking S t b) (ho : Orderly b) (heffect : Effect b t b') :
    Taking S t b' := by
  cases h with
  | finished hle => exact .finished (hle.trans heffect.past_le)
  | @collecting index old hphase hold hvisited hle =>
    cases heffect with
    | quiet => exact .collecting old hphase hold hvisited hle
    | @visited flush index' v hphase' hv hnil =>
      rw [hphase] at hphase'
      cases hphase'
      refine .collecting old (Function.update_self ..) hold (fun w hw => ?_) hle
      change w ∈ b.receivers.take (index + 1) at hw
      rw [List.take_add_one, hv, List.mem_append] at hw
      rcases hw with hw | hw
      · exact hvisited w hw
      · have hwv : w = v := by simpa using hw
        have hprefix := hold w
        rw [hwv, hnil, List.prefix_nil] at hprefix
        rw [hwv, hprefix]
    | received hphase' hv hchannel hbuf =>
      rw [hphase] at hphase'
      cases hphase'
      exact taking_received ho hphase hv hchannel hbuf hold hvisited hle
    | @collected flush index' hphase' hlast =>
      rw [hphase] at hphase'
      cases hphase'
      refine .collected (Function.update_self ..) ?_
      rw [List.take_of_length_le hlast] at hvisited
      rw [List.flatMap_eq_nil_iff.2 hvisited, batchesOf_nil, zero_add] at hle
      exact hle
    | _ => simp_all [Phase.holds]
  | collected hphase hle =>
    cases heffect with
    | quiet => exact .collected hphase hle
    | @drained buf hphase' hbuf =>
      refine .delivering (Function.update_self ..) ?_
      have hbuffered : b.buffered = buf.items := Buffers.IsBuf.buffered (Or.inl hbuf)
      rw [hbuffered, batchesOf, Multiset.map_coe] at hle
      exact hle
    | released hphase' =>
      rw [hphase] at hphase'
      rcases hphase' with h | ⟨-, hnone⟩ | h
      · cases h
      · have hbuffered : b.buffered = [] := by simp [Buffers.buffered, hnone]
        rw [hbuffered, batchesOf_nil, zero_add] at hle
        exact .finished hle
      · cases h
    | _ => simp_all [Phase.holds]
  | delivering hphase hle =>
    cases heffect with
    | quiet => exact .delivering hphase hle
    | @consumed batch batches descriptors hphase' =>
      rw [hphase] at hphase'
      cases hphase'
      refine .delivering (Function.update_self ..) (hle.trans (le_of_eq ?_))
      change Multiset.ofList (batch :: batches) + b.past = Multiset.ofList batches + (Multiset.ofList
        ((b.consumed ++ [(descriptors, batch)]).map Prod.snd) + batchesOf b.history.overwritten +
          batchesOf b.history.refused + Multiset.ofList b.history.lost)
      rw [← Multiset.cons_coe, ← Multiset.singleton_add, List.map_append, ← Multiset.coe_add, Buffers.past]
      change _ = _ + (_ + {batch} + _ + _ + _)
      abel
    | @unwound batch batches descriptors hphase' =>
      rw [hphase] at hphase'
      cases hphase'
      refine .finished (hle.trans (le_of_eq ?_))
      change Multiset.ofList (batch :: batches) + b.past = Multiset.ofList
        ((b.consumed ++ [(descriptors, batch)]).map Prod.snd) + batchesOf b.history.overwritten +
          batchesOf b.history.refused + Multiset.ofList (b.history.lost ++ batches)
      rw [← Multiset.cons_coe, ← Multiset.singleton_add, List.map_append, ← Multiset.coe_add, ← Multiset.coe_add,
        Buffers.past]
      change _ = _ + {batch} + _ + _ + _
      abel
    | released hphase' =>
      rw [hphase] at hphase'
      rcases hphase' with h | ⟨h, -⟩ | h
      · cases h
      · cases h
      · cases h
        rw [Multiset.coe_nil, zero_add] at hle
        exact .finished hle
    | _ => simp_all [Phase.holds]

end Taking

/-! ### Runs -/

section Run

variable [DecidableEq T] {info : T → ThreadInfo} {shardNum : Nat} {hpos : 0 < shardNum} {as : List (T × PanicOp)}
  {w : World T}

private theorem grows_of_run {w₀ : World T} (hrun : Steps.run (World.act info) w₀ as = some w) :
    Grows w₀.buffers w.buffers :=
  Steps.run_induction (P := fun w : World T => Grows w₀.buffers w.buffers)
    (fun _ _ _ h hw => h.trans (act_effect hw).grows) (Grows.refl _) hrun

/-- A flush call takes what is in the channels and in the ring buffer when its collect begins. -/
private theorem taking_of_run {w₀ : World T} {t : T} (ho : Orderly w₀.buffers)
    (hphase : w₀.phase t = .collecting true 0) (hrun : Steps.run (World.act info) w₀ as = some w) :
    Orderly w.buffers ∧
      Taking (batchesOf w₀.buffers.inChannels + batchesOf w₀.buffers.buffered + w₀.buffers.past) t w.buffers := by
  refine Steps.run_induction (P := fun w => Orderly (World.buffers w) ∧ Taking _ t (World.buffers w)) ?_
    ⟨ho, .collecting w₀.channel hphase (fun _ => List.prefix_rfl) (fun u hu => by cases hu) (le_refl _)⟩ hrun
  rintro w ⟨u, a⟩ w' ⟨ho, htaking⟩ hw
  have heffect := act_effect hw
  refine ⟨heffect.orderly ho, ?_⟩
  by_cases hu : u = t
  · exact htaking.own ho (hu ▸ heffect)
  · by_cases hlock : w.buffers.lock = some t
    · exact htaking.bystands (heffect.bystands ho hlock hu) heffect.past_le
    · have hfree : (w.buffers.phase t).holds ≠ true := by rwa [Ne, ho.holds]
      cases htaking with
      | collecting old hphase => exact absurd (by rw [hphase]; rfl) hfree
      | collected hphase => exact absurd (by rw [hphase]; rfl) hfree
      | delivering hphase => exact absurd (by rw [hphase]; rfl) hfree
      | finished hle => exact .finished (hle.trans heffect.past_le)

end Run

/-- A flush call of `t` is in the phase in `w₀`, and it has returned or panicked when `during` has run. -/
structure FlushCall [DecidableEq T] (info : T → ThreadInfo) (t : T) (phase : Phase) (w₀ : World T)
    (during : List (T × PanicOp)) (w : World T) : Prop where
  begins : w₀.phase t = phase
  runs : Steps.run (World.act info) w₀ during = some w
  /-- All the while `t` holds the lock. -/
  inCall : Steps.Meet (World.act info) (fun w _ => (World.phase w t).holds = true) w₀ during
  ends : w.phase t = .idle

section Claim

variable [DecidableEq T]

/-- With every send succeeding no span is lost on the way but those overwritten and those that a flush call had still
to pass on when `consume` panicked, none is delivered twice, and a flush call delivers whatever is in the channels and
the ring buffer when its collect begins, unless it is overwritten or lost so. -/
theorem spans_conserved {info : T → ThreadInfo} {shardNum : Nat} {hpos : 0 < shardNum} {as : List (T × PanicOp)}
    {w : World T} (hrun : Steps.run (World.act info) (World.init shardNum hpos) as = some w)
    (hsends : w.history.refused = []) :
    Conserves w.buffers ∧
      ∀ before during w₀ t, as = before ++ during →
        Steps.run (World.act info) (World.init shardNum hpos) before = some w₀ →
        FlushCall info t (.collecting true 0) w₀ during w →
        ∃ taken overwritten lost, w.consumed = w₀.consumed ++ taken ∧
          w.history.overwritten = w₀.history.overwritten ++ overwritten ∧ w.history.lost = w₀.history.lost ++ lost ∧
          batchesOf (w₀.buffers.inChannels ++ w₀.buffers.buffered) ≤
            Multiset.ofList (taken.map Prod.snd) + batchesOf overwritten + Multiset.ofList lost := by
  refine ⟨conserves_of_accounted (accounted_of_run hrun) (sharded_of_run hrun).home hsends, ?_⟩
  rintro before during w₀ t rfl hbefore hcall
  obtain ⟨-, htaking⟩ := taking_of_run (accounted_of_run hbefore).orderly hcall.begins hcall.runs
  obtain ⟨⟨taken, htaken⟩, ⟨overwritten, hoverwritten⟩, hrefused, ⟨lost, hlost⟩⟩ := grows_of_run hcall.runs
  refine ⟨taken, overwritten, lost, htaken.symm, hoverwritten.symm, hlost.symm, ?_⟩
  change w₀.history.refused <+: w.history.refused at hrefused
  rw [hsends, List.prefix_nil] at hrefused
  have hidle : w.buffers.phase t = .idle := hcall.ends
  cases htaking with
  | collecting old hphase => rw [hidle] at hphase; cases hphase
  | collected hphase => rw [hidle] at hphase; cases hphase
  | delivering hphase => rw [hidle] at hphase; cases hphase
  | finished hle =>
    have hpast : w.buffers.past = Multiset.ofList (taken.map Prod.snd) + batchesOf overwritten +
        Multiset.ofList lost + w₀.buffers.past := by
      change w₀.consumed ++ taken = w.consumed at htaken
      change w₀.history.overwritten ++ overwritten = w.history.overwritten at hoverwritten
      change w₀.history.lost ++ lost = w.history.lost at hlost
      change Multiset.ofList (w.consumed.map Prod.snd) + batchesOf w.history.overwritten +
        batchesOf w.history.refused + Multiset.ofList w.history.lost = _ + _ + _ + (Multiset.ofList
          (w₀.consumed.map Prod.snd) + batchesOf w₀.history.overwritten + batchesOf w₀.history.refused +
            Multiset.ofList w₀.history.lost)
      rw [← htaken, ← hoverwritten, ← hlost, hsends, hrefused, List.map_append, ← Multiset.coe_add, batchesOf_append,
        ← Multiset.coe_add w₀.history.lost lost]
      abel
    rw [hpast, ← batchesOf_append] at hle
    exact le_of_add_le_add_right hle

end Claim

/-! ### Two flush calls at once -/

inductive TwoThreads where
  | a
  | b
deriving DecidableEq, Repr

def twoThreads : TwoThreads → ThreadInfo
  | .a => ⟨1, some "a"⟩
  | .b => ⟨2, some "b"⟩

def nexts {T : Type} (t : T) (n : Nat) : List (T × Op) := List.replicate n (t, .next .stored)

def runFrom {T : Type} [DecidableEq T] (info : T → ThreadInfo) (w : World T) (as : List (T × Op)) : World T :=
  (Steps.run (World.step info) w as).getD w

theorem run_eq_runFrom {T : Type} [DecidableEq T] {info : T → ThreadInfo} {w : World T} {as : List (T × Op)}
    (h : (Steps.run (World.step info) w as).isSome = true) :
    Steps.run (World.step info) w as = some (runFrom info w as) := Steps.run_eq_getD h

/-- `a` and then `b` have flushed the shards, one of which held a span of `a`; `b` gets the lock. -/
def twoFlushes : List (TwoThreads × Op) := List.flatten [
  [(.a, .threadStart), (.b, .threadStart), (.a, .start), (.a, .span 0 .runtimePark ⟨5⟩), (.a, .dropSpan 0 ⟨6⟩)],
  nexts .a 1, [(.a, .flush)], nexts .a 17, [(.b, .flush)], nexts .b 18]

theorem sixteen_pos : 0 < 16 := by decide

def beforeFirst : World TwoThreads := runFrom twoThreads (World.init 16 sixteen_pos) twoFlushes

/-- The flush call of `b` returns. -/
def afterFirst : World TwoThreads := runFrom twoThreads beforeFirst (nexts .b 69)

/-- `a` gets the lock, and its flush call returns. -/
def beforeSecond : World TwoThreads := runFrom twoThreads afterFirst (nexts .a 1)

def afterSecond : World TwoThreads := runFrom twoThreads beforeSecond (nexts .a 5)

def overtakenSpan : RawSpan := ⟨.runtimePark, 1, ⟨5⟩, ⟨6⟩⟩

theorem spans_conserved_first : ∃ taken overwritten lost, afterFirst.consumed = beforeFirst.consumed ++ taken ∧
    afterFirst.history.overwritten = beforeFirst.history.overwritten ++ overwritten ∧
    afterFirst.history.lost = beforeFirst.history.lost ++ lost ∧
    batchesOf (beforeFirst.buffers.inChannels ++ beforeFirst.buffers.buffered) ≤
      Multiset.ofList (taken.map Prod.snd) + batchesOf overwritten + Multiset.ofList lost := by
  have hbefore : Steps.run (World.act twoThreads) (World.init 16 sixteen_pos) (quietly twoFlushes) = some beforeFirst :=
    run_quietly (run_eq_runFrom (by decide +kernel))
  have hcall : Steps.run (World.act twoThreads) beforeFirst (quietly (nexts .b 69)) = some afterFirst :=
    run_quietly (run_eq_runFrom (by decide +kernel))
  have hrun := Steps.run_trans hbefore hcall
  exact (spans_conserved hrun (by decide +kernel)).2 _ _ beforeFirst .b rfl hbefore
    ⟨by decide +kernel, hcall, by decide +kernel, by decide +kernel⟩

/-- The span is in no queue any more when the collect of `a` begins, the call of `a` consumes nothing, and nothing is
overwritten or lost. -/
theorem taken_by_another_flush :
    Steps.run (World.act twoThreads) (World.init 16 sixteen_pos)
        (quietly twoFlushes ++ quietly (nexts .b 69) ++ quietly (nexts .a 1)) = some beforeSecond ∧
      FlushCall twoThreads .a (.collecting true 0) beforeSecond (quietly (nexts .a 5)) afterSecond ∧
      afterSecond.history.refused = [] ∧
      overtakenSpan ∈ beforeSecond.history.pushed ∧ overtakenSpan ∉ beforeSecond.buffers.queued ∧
      afterSecond.consumed = beforeSecond.consumed ∧ afterSecond.history.overwritten = [] ∧
      afterSecond.history.lost = [] := by
  have hbefore : Steps.run (World.act twoThreads) (World.init 16 sixteen_pos) (quietly twoFlushes) = some beforeFirst :=
    run_quietly (run_eq_runFrom (by decide +kernel))
  have hfirst : Steps.run (World.act twoThreads) beforeFirst (quietly (nexts .b 69)) = some afterFirst :=
    run_quietly (run_eq_runFrom (by decide +kernel))
  have hlock : Steps.run (World.act twoThreads) afterFirst (quietly (nexts .a 1)) = some beforeSecond :=
    run_quietly (run_eq_runFrom (by decide +kernel))
  have hcall : Steps.run (World.act twoThreads) beforeSecond (quietly (nexts .a 5)) = some afterSecond :=
    run_quietly (run_eq_runFrom (by decide +kernel))
  exact ⟨Steps.run_trans (Steps.run_trans hbefore hfirst) hlock, ⟨by decide +kernel, hcall, by decide +kernel,
    by decide +kernel⟩, by decide +kernel, by decide +kernel, by decide +kernel, by decide +kernel, by decide +kernel,
    by decide +kernel⟩

/-! ### A panic -/

/-- The queue of `b` holds a `RuntimeStart` span and that of `a` another one; the flush call of `a` has both batches,
and `consume` panics at the first. -/
def startAndPark : List (TwoThreads × PanicOp) := quietly (List.flatten [
  [(.a, .threadStart), (.b, .threadStart), (.a, .start), (.a, .span 0 .runtimePark ⟨5⟩),
    (.b, .span 1 .runtimeStart ⟨5⟩), (.a, .dropSpan 0 ⟨6⟩)], nexts .a 1, [(.b, .dropSpan 1 ⟨6⟩)], nexts .b 1,
  [(.a, .flush)], nexts .a 9]) ++
  [(.a, { op := .next .stored, panics := true })]

def afterPanic : World TwoThreads :=
  (Steps.run (World.act twoThreads) (World.init 2 Nat.two_pos) startAndPark).getD (World.init 2 Nat.two_pos)

/-- The span of `a` is in no place that the runtime or the consumer knows. -/
theorem lost_in_panic :
    Steps.run (World.act twoThreads) (World.init 2 Nat.two_pos) startAndPark = some afterPanic ∧
      afterPanic.history.refused = [] ∧ overtakenSpan ∈ afterPanic.history.pushed ∧
      overtakenSpan ∉ afterPanic.buffers.queued ∧ afterPanic.buffers.inChannels = [] ∧
      afterPanic.buffers.buffered = [] ∧ overtakenSpan ∉ afterPanic.buffers.delivered.flatten ∧
      afterPanic.history.overwritten = [] := by
  refine ⟨Steps.run_eq_getD (by decide +kernel), ?_⟩
  decide +kernel

end RtTrace
