import Fastrace.RtTrace.DescriptorOrder

/-!
# The runtime with its reporter (`consumer.rs`, `backend/perfetto.rs`)

`Tracer` is the runtime, the `PerfettoReporter` that `initialize` has set, and the packets that the writers of all
flush calls have taken.  A step of the runtime that calls `consume` is one call of the reporter.

A call of `consume` panics at a span that it does not write, and when the writer fails.  The panic unwinds `flush`; the
descriptors that `consume` has drained stay drained.  So a run of the system is one of the runtime in which a call of
`consume` panics when the reporter does (`act_of_run`).
-/

namespace RtTrace

open Fastrace (Anchor)

/-! ### The system -/

structure Tracer (T : Type) where
  world : World T
  reporter : Reporter T
  /-- The packets that the writers have taken. -/
  output : List TracePacket

/-- An operation, with what a call of `consume` in it finds. -/
structure TracerOp where
  op : Op
  anchor : Anchor
  /-- The number of packets that the writer takes before it fails; `none` if it does not fail. -/
  failsAfter : Option Nat := none

def TracerOp.takes (a : TracerOp) (packets : List TracePacket) : List TracePacket :=
  match a.failsAfter with
  | none => packets
  | some n => packets.take n

section Defs

variable {T : Type} [DecidableEq T]

namespace Tracer

def init (shardNum : Nat) (h : 0 < shardNum) : Tracer T := ⟨World.init shardNum h, Reporter.init, []⟩

/-- The call of `consume` in a step that takes the runtime to `w`. -/
def consume (pid : Int32) (s : Tracer T) (w : World T) (t : T) (a : TracerOp) (order : IterOrder RawSpan)
    (batch : List RawSpan) : Option (Tracer T) :=
  match s.reporter.consume pid t
    ⟨a.anchor, (drainDescriptors order s.world.descriptors).1, batch, a.failsAfter.isNone⟩ with
  | (.error (.overrun _), _) => none
  | (.error .panicked, reporter) => some ⟨w.unwind t, reporter, s.output⟩
  | (.error (.unwritten packets), reporter) => some ⟨w.unwind t, reporter, s.output ++ a.takes packets⟩
  | (.ok packets, reporter) => some ⟨w, reporter, s.output ++ a.takes packets⟩

def step (pid : Int32) (info : T → ThreadInfo) (s : Tracer T) : T × TracerOp → Option (Tracer T)
  | (t, a) => (s.world.step info (t, a.op)).bind fun w =>
    match s.world.consumes t a.op with
    | some (order, batch) => s.consume pid w t a order batch
    | none =>
      match a.op with
      | .threadExit => (s.reporter.step pid (t, .threadExit)).map fun reporter => ⟨w, reporter, s.output⟩
      | _ => some { s with world := w }

end Tracer

end Defs

/-! ### What a step does to the descriptors -/

section Descriptors

variable {T : Type} {info : T → ThreadInfo} {w w' : World T} {t : T} {op : Op}

/-- A step adds the descriptor of a thread or that of the process, or drains the descriptors, or leaves them. -/
inductive DescriptorStep (info : T → ThreadInfo) (w : World T) (t : T) (op : Op) (w' : World T) : Prop where
  | kept (hdescriptors : w'.descriptors = w.descriptors) (hflushed : w'.flushedOnce = w.flushedOnce)
      (hconsumed : w'.consumed = w.consumed)
  /-- The first span of the thread. -/
  | thread {h : Var} {typ : SpanType} {now : Fastrace.Instant} (hop : op = .span h typ now)
      (henabled : w.enabled = true) (hinitialized : w.initialized t = false)
      (hdescriptors : w'.descriptors = w.descriptors.insert (threadDescriptor (info t)) false)
      (hflushed : w'.flushedOnce = w.flushedOnce) (hconsumed : w'.consumed = w.consumed)
  /-- The first flush. -/
  | process {order : IterOrder RawSpan} (hop : op = .next order) (hphase : w.phase t = .collected true)
      (hnever : w.flushedOnce = false)
      (hdescriptors : w'.descriptors = w.descriptors.insert (processDescriptor (info t)) false)
      (hflushed : w'.flushedOnce = true) (hconsumed : w'.consumed = w.consumed)
  | drained {order : IterOrder RawSpan} {batch : List RawSpan} (hconsumes : w.consumes t op = some (order, batch))
      (hdescriptors : w'.descriptors = (drainDescriptors order w.descriptors).2)
      (hflushed : w'.flushedOnce = w.flushedOnce)
      (hconsumed : w'.consumed = w.consumed ++ [((drainDescriptors order w.descriptors).1, batch)])

variable [DecidableEq T]

theorem step_descriptors (hw : w.step info (t, op) = some w') : DescriptorStep info w t op w' := by
  cases step_transition hw with
  | span hfree hspan henabled hadd =>
    split at hadd
    · cases hadd
      exact .kept rfl rfl rfl
    · rename_i hinitialized
      obtain ⟨-, rfl⟩ := addDescriptor_eq_some hadd
      exact .thread rfl henabled (eq_false_of_ne_true hinitialized) rfl rfl rfl
  | pushBatch hphase hqueue hpush hsend =>
    have hkeeps := sendCommand_keeps hsend
    exact .kept hkeeps.descriptors hkeeps.flushedOnce hkeeps.consumed
  | flushShard hphase hindex hqueue hsend =>
    have hkeeps := sendCommand_keeps hsend
    exact .kept hkeeps.descriptors hkeeps.flushedOnce hkeeps.consumed
  | drainNothing hphase hadd hbuf | drain hphase hadd hbuf =>
    split at hadd
    · rename_i honce
      cases hadd
      exact .kept rfl honce.symm rfl
    · rename_i hnever
      obtain ⟨-, rfl⟩ := addDescriptor_eq_some hadd
      exact .process rfl hphase (eq_false_of_ne_true hnever) rfl rfl rfl
  | consume hphase => exact .drained (consumes_eq_some.2 ⟨rfl, _, hphase⟩) rfl rfl rfl
  | _ => exact .kept rfl rfl rfl

/-- A step with a call of `consume` drains the descriptors. -/
theorem step_of_consumes {order : IterOrder RawSpan} {batch : List RawSpan} (hw : w.step info (t, op) = some w')
    (hconsumes : w.consumes t op = some (order, batch)) :
    w'.descriptors = (drainDescriptors order w.descriptors).2 ∧
      w'.consumed = w.consumed ++ [((drainDescriptors order w.descriptors).1, batch)] ∧
      ∃ batches, w'.phase t = .delivering batches := by
  obtain ⟨rfl, batches, hphase⟩ := consumes_eq_some.1 hconsumes
  cases step_transition hw with
  | consume hphase' =>
    rw [hphase] at hphase'
    cases hphase'
    exact ⟨rfl, rfl, batches, Function.update_self ..⟩
  | push hphase' | pushBatch hphase' | flushShard hphase' | restart hphase' | lock hphase' | receive hphase'
  | nextReceiver hphase' | lastReceiver hphase' | endRound hphase' | drainNothing hphase' | drain hphase'
  | endFlush hphase' =>
    rw [hphase] at hphase'
    cases hphase'

/-- Only a flush call that has seen to the descriptor of the process consumes spans. -/
theorem delivering_of_step (hw : w.step info (t, op) = some w') {u : T} {batches : List (List RawSpan)}
    (hu : w'.phase u = .delivering batches) :
    w'.flushedOnce = true ∨ ∃ batches', w.phase u = .delivering batches' := by
  have hupdate : ∀ {p : Phase}, (∀ batches, p ≠ .delivering batches) →
      Function.update w.phase t p u = .delivering batches → w.phase u = .delivering batches := by
    intro p hp hp'
    rw [Function.update_apply] at hp'
    split at hp'
    · exact absurd hp' (hp batches)
    · exact hp'
  cases step_transition hw with
  | threadStart | threadExit | start | stop | span | noopSpan | forgetSpan | receive => exact Or.inr ⟨batches, hu⟩
  | pushBatch hphase hqueue hpush hsend | flushShard hphase hindex hqueue hsend =>
    rw [(sendCommand_keeps hsend).phase] at hu
    exact Or.inr ⟨batches, hupdate (fun _ h => by cases h) hu⟩
  | drainNothing | drain => exact Or.inl rfl
  | consume hphase =>
    by_cases hut : u = t
    · exact Or.inr ⟨_, hut ▸ hphase⟩
    · change Function.update w.phase t _ u = _ at hu
      rw [Function.update_of_ne hut] at hu
      exact Or.inr ⟨batches, hu⟩
  | _ => exact Or.inr ⟨batches, hupdate (fun _ h => by cases h) hu⟩

end Descriptors

/-! ### What a step of the system does -/

section Step

variable {T : Type} [DecidableEq T] {pid : Int32} {info : T → ThreadInfo} {s s' : Tracer T} {t : T} {a : TracerOp}

theorem TracerOp.takes_prefix (a : TracerOp) (packets : List TracePacket) : a.takes packets <+: packets := by
  unfold TracerOp.takes
  split
  · exact List.prefix_rfl
  · exact List.take_prefix ..

/-- A step without a call of `consume`, one with a call that panics, or one with a call that writes. -/
inductive Acts (pid : Int32) (info : T → ThreadInfo) (s : Tracer T) (t : T) (a : TracerOp) : Tracer T → Prop where
  | moved {w : World T} {reporter : Reporter T} (hw : s.world.step info (t, a.op) = some w)
      (hconsumes : s.world.consumes t a.op = none) : Acts pid info s t a ⟨w, reporter, s.output⟩
  | panicked {w : World T} {reporter : Reporter T} {order : IterOrder RawSpan} {batch : List RawSpan}
      (hw : s.world.step info (t, a.op) = some w) (hconsumes : s.world.consumes t a.op = some (order, batch))
      (htypes : ¬((∀ d ∈ (drainDescriptors order s.world.descriptors).1, d.typ.isDescriptor = true) ∧
        ∀ span ∈ batch, span.typ.isSlice = true)) : Acts pid info s t a ⟨w.unwind t, reporter, s.output⟩
  /-- The writer may have failed after some of the packets. -/
  | wrote {w w' : World T} {reporter : Reporter T} {order : IterOrder RawSpan} {batch : List RawSpan}
      {packets : List TracePacket} (hw : s.world.step info (t, a.op) = some w)
      (hconsumes : s.world.consumes t a.op = some (order, batch)) (hw' : w' = w ∨ w' = w.unwind t)
      (hpackets : Written pid ((drainDescriptors order s.world.descriptors).1, batch) packets) :
      Acts pid info s t a ⟨w', reporter, s.output ++ a.takes packets⟩

private theorem encoded_panicked {call : Call} {packets : List TracePacket}
    (h : encoded pid call packets = .error .panicked) :
    ¬((∀ d ∈ call.descriptors, d.typ.isDescriptor = true) ∧ ∀ span ∈ call.spans, span.typ.isSlice = true) := by
  intro htypes
  unfold encoded at h
  rw [fillPackets_eq, if_pos htypes] at h
  split at h
  · cases h
  · change call.unwrap _ = _ at h
    unfold Call.unwrap at h
    split at h <;> cases h

theorem step_acts (hs : s.step pid info (t, a) = some s') : Acts pid info s t a s' := by
  obtain ⟨w, hw, hs⟩ := Option.bind_eq_some_iff.1 hs
  split at hs
  · rename_i order batch hconsumes
    have hfst := consume_fst pid s.reporter t
      ⟨a.anchor, (drainDescriptors order s.world.descriptors).1, batch, a.failsAfter.isNone⟩
    unfold Tracer.consume at hs
    split at hs
    · cases hs
    · rename_i reporter hconsume
      cases hs
      rw [hconsume] at hfst
      exact .panicked hw hconsumes (encoded_panicked hfst.symm)
    · rename_i packets reporter hconsume
      cases hs
      rw [hconsume] at hfst
      exact .wrote hw hconsumes (Or.inr rfl) (written_of_encoded (Or.inr hfst.symm))
    · rename_i packets reporter hconsume
      cases hs
      rw [hconsume] at hfst
      exact .wrote hw hconsumes (Or.inl rfl) (written_of_encoded (Or.inl hfst.symm))
  · rename_i hconsumes
    split at hs
    · obtain ⟨reporter, -, rfl⟩ := Option.map_eq_some_iff.1 hs
      exact .moved hw hconsumes
    · cases hs
      exact .moved hw hconsumes

/-- The runtime takes a step and is unwound when `consume` panics. -/
theorem Acts.world (h : Acts pid info s t a s') :
    ∃ w, s.world.step info (t, a.op) = some w ∧ (s'.world = w ∨ s'.world = w.unwind t) := by
  cases h with
  | moved hw hconsumes => exact ⟨_, hw, Or.inl rfl⟩
  | panicked hw hconsumes htypes => exact ⟨_, hw, Or.inr rfl⟩
  | wrote hw hconsumes hw' hpackets => exact ⟨_, hw, hw'⟩

private theorem Acts.act (h : Acts pid info s t a s') :
    ∃ panics, s.world.act info (t, { op := a.op, panics := panics }) = some s'.world := by
  have hpanics : ∀ {w : World T} {order : IterOrder RawSpan} {batch : List RawSpan},
      s.world.step info (t, a.op) = some w → s.world.consumes t a.op = some (order, batch) →
      s.world.act info (t, { op := a.op, panics := true }) = some (w.unwind t) := by
    intro w order batch hw hconsumes
    simp [World.act, hw, hconsumes]
  cases h with
  | moved hw hconsumes => exact ⟨false, by simp [World.act, hw]⟩
  | panicked hw hconsumes htypes => exact ⟨true, hpanics hw hconsumes⟩
  | wrote hw hconsumes hw' hpackets =>
    rcases hw' with rfl | rfl
    · exact ⟨false, by simp [World.act, hw]⟩
    · exact ⟨true, hpanics hw hconsumes⟩

/-- A run of the system is a run of the runtime. -/
theorem act_of_run {shardNum : Nat} {hpos : 0 < shardNum} {as : List (T × TracerOp)}
    (hrun : Steps.run (Tracer.step pid info) (Tracer.init shardNum hpos) as = some s) :
    ∃ bs, Steps.run (World.act info) (World.init shardNum hpos) bs = some s.world := by
  refine Steps.run_induction (P := fun s : Tracer T => ∃ bs, Steps.run (World.act info) (World.init shardNum hpos) bs =
    some s.world) ?_ ⟨[], rfl⟩ hrun
  rintro s ⟨t, a⟩ s' ⟨bs, h⟩ hs
  obtain ⟨panics, hact⟩ := (step_acts hs).act
  exact ⟨bs ++ [(t, { op := a.op, panics := panics })], Steps.run_step h hact⟩

/-- What the steps of the runtime and a panic keep the steps of the system keep. -/
theorem Acts.keeps {P : World T → Prop} (hstep : ∀ w a w', P w → w.step info a = some w' → P w')
    (hunwind : ∀ w t, P w → P (w.unwind t)) (h : Acts pid info s t a s') (hs : P s.world) : P s'.world := by
  obtain ⟨w, hw, hw' | hw'⟩ := h.world
  · rw [hw']
    exact hstep _ _ _ hs hw
  · rw [hw']
    exact hunwind _ t (hstep _ _ _ hs hw)

theorem world_induction {P : World T → Prop} (hstep : ∀ w a w', P w → w.step info a = some w' → P w')
    (hunwind : ∀ w t, P w → P (w.unwind t)) {shardNum : Nat} {hpos : 0 < shardNum}
    (hinit : P (World.init shardNum hpos)) {as : List (T × TracerOp)}
    (hrun : Steps.run (Tracer.step pid info) (Tracer.init shardNum hpos) as = some s) : P s.world :=
  Steps.run_induction (P := fun s : Tracer T => P s.world)
    (fun _ _ _ h hs => (step_acts hs).keeps hstep hunwind h) hinit hrun

theorem Described.unwind {w : World T} (h : Described info w) (t : T) : Described info (w.unwind t) :=
  ⟨h.thread, h.of, h.life, h.ids⟩

/-- In every run the descriptors are those of threads and of the process. -/
theorem Tracer.described_of_run {shardNum : Nat} {hpos : 0 < shardNum} {as : List (T × TracerOp)}
    (hrun : Steps.run (Tracer.step pid info) (Tracer.init shardNum hpos) as = some s) : Described info s.world :=
  world_induction (fun _ _ _ h hw => h.step hw) (fun _ t h => h.unwind t) (described_init shardNum hpos) hrun

end Step

end RtTrace
