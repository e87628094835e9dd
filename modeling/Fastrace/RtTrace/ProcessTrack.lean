import Fastrace.RtTrace.Tracer

/-!
# The process track

The first flush call adds the descriptor of the process, with the id of the thread that flushes, and the first call of
`consume` drains all descriptors there are.  `consume` swaps each descriptor to the front as it appends it, so the one
that the map's iterator visits last comes first in the output.

* The process is described before everything else if the first call of `consume` visits its descriptor last and writes
  it (`process_first_of_meet`); when that call writes and has visited another descriptor last, it is not
  (`processFirst_first_call_iff`).
* The uuid of a track is the id in its descriptor.  The process track has that of the thread that flushed first, and no
  thread track has the same if no thread with this id creates a span while tracing is on (`unique_uuids_of_meet`).
-/

namespace RtTrace

/-! ### Packets -/

def TracePacket.describesProcess (packet : TracePacket) : Bool :=
  match packet.data with
  | some (.trackDescriptor descriptor) => descriptor.thread.isNone
  | _ => false

def TracePacket.describesThread (packet : TracePacket) : Bool :=
  match packet.data with
  | some (.trackDescriptor descriptor) => descriptor.thread.isSome
  | _ => false

/-- The uuid of the track that the packet describes. -/
def TracePacket.descriptorUuid (packet : TracePacket) : Option UInt64 :=
  match packet.data with
  | some (.trackDescriptor descriptor) => descriptor.uuid
  | _ => none

/-- Every packet but a description of the process comes after one. -/
def ProcessFirst (output : List TracePacket) : Prop :=
  ∀ front packet rest, output = front ++ packet :: rest → packet.describesProcess = false →
    ∃ first ∈ front, first.describesProcess = true

section Packets

variable {pid : Int32} {packet : TracePacket} {d : RawSpan}

/-- The first packet decides. -/
private theorem processFirst_cons {first : TracePacket} {rest : List TracePacket} :
    ProcessFirst (first :: rest) ↔ first.describesProcess = true := by
  constructor
  · intro h
    by_contra hfirst
    obtain ⟨_, hnil, -⟩ := h [] first rest rfl (eq_false_of_ne_true hfirst)
    cases hnil
  · intro hfirst front packet rest' hsplit hpacket
    match front with
    | [] =>
      rw [List.nil_append] at hsplit
      cases hsplit
      rw [hfirst] at hpacket
      cases hpacket
    | _ :: front =>
      rw [List.cons_append] at hsplit
      cases hsplit
      exact ⟨_, List.mem_cons_self, hfirst⟩

private theorem processFirst_nil : ProcessFirst [] := by
  intro front packet rest hsplit
  have hlength := congrArg List.length hsplit
  simp at hlength

/-- What the packet of a descriptor says. -/
private theorem descriptorPacket_trackDescriptor (pid : Int32) (d : RawSpan) :
    ∃ descriptor, (descriptorPacket pid d {}).data = some (.trackDescriptor descriptor) ∧
      descriptor.uuid = some d.threadId ∧
      (descriptor.thread.isSome = true ↔ ∃ name, d.typ = .threadDiscriptor name) := by
  unfold descriptorPacket
  split
  · rename_i name htyp
    exact ⟨_, rfl, rfl, fun _ => ⟨name, htyp⟩, fun _ => rfl⟩
  · rename_i htyp
    refine ⟨_, rfl, rfl, fun hsome => (by cases hsome), ?_⟩
    rintro ⟨name, hname⟩
    exact absurd hname (htyp name)

private theorem descriptorUuid_eq (hdata : packet.data = (descriptorPacket pid d {}).data) :
    packet.descriptorUuid = some d.threadId := by
  obtain ⟨descriptor, hdescriptor, huuid, -⟩ := descriptorPacket_trackDescriptor pid d
  simp only [TracePacket.descriptorUuid, hdata, hdescriptor, huuid]

private theorem describesThread_iff (hdata : packet.data = (descriptorPacket pid d {}).data) :
    packet.describesThread = true ↔ ∃ name, d.typ = .threadDiscriptor name := by
  obtain ⟨descriptor, hdescriptor, -, hthread⟩ := descriptorPacket_trackDescriptor pid d
  simp only [TracePacket.describesThread, hdata, hdescriptor, hthread]

private theorem describesProcess_iff (hd : d.typ.isDescriptor = true)
    (hdata : packet.data = (descriptorPacket pid d {}).data) :
    packet.describesProcess = true ↔ d.typ = .processDiscriptor := by
  obtain ⟨descriptor, hdescriptor, -, hthread⟩ := descriptorPacket_trackDescriptor pid d
  have hprocess : packet.describesProcess = !descriptor.thread.isSome := by
    simp [TracePacket.describesProcess, hdata, hdescriptor]
  rw [hprocess, Bool.not_eq_true', ← Bool.not_eq_true, hthread]
  cases htyp : d.typ with
  | threadDiscriptor name => simp
  | processDiscriptor => simp
  | _ => rw [htyp] at hd; cases hd

private theorem map_insertFirst {α β : Type} (f : α → β) (front : List α) (new : α) :
    (insertFirst front new).map f = insertFirst (front.map f) (f new) := by
  cases front <;> simp [insertFirst]

private theorem map_foldl_insertFirst {α β : Type} (f : α → β) (news front : List α) :
    (news.foldl insertFirst front).map f = (news.map f).foldl insertFirst (front.map f) := by
  induction news generalizing front with
  | nil => rfl
  | cons new news ih => rw [List.foldl_cons, ih, map_insertFirst, List.map_cons, List.foldl_cons]

/-- The one inserted last is the first. -/
private theorem head?_foldl_insertFirst {α : Type} (news front : List α) :
    (news.foldl insertFirst front).head? = news.getLast?.or front.head? := by
  induction news generalizing front with
  | nil => rfl
  | cons new news ih =>
    have hfirst : (insertFirst front new).head? = some new := by cases front <;> rfl
    rw [List.foldl_cons, ih, hfirst, List.getLast?_cons]
    cases news.getLast? <;> rfl

/-- The descriptor that `consume` is given last is in the first packet. -/
theorem Written.head {call : List RawSpan × List RawSpan} {packets : List TracePacket} (h : Written pid call packets)
    (hlast : call.1.getLast? = some d) :
    ∃ first rest, packets = first :: rest ∧ first.data = (descriptorPacket pid d {}).data := by
  obtain ⟨anchor, pooled, hlength, rfl⟩ := h.eq
  have hhead : (((List.zipWith (descriptorPacket pid) call.1 pooled).foldl insertFirst []).map
      TracePacket.data).head? = some (descriptorPacket pid d {}).data := by
    rw [map_foldl_insertFirst, zipWith_data hlength, head?_foldl_insertFirst, List.getLast?_map, hlast]
    rfl
  generalize (List.zipWith (descriptorPacket pid) call.1 pooled).foldl insertFirst [] = heads at hhead ⊢
  match heads with
  | [] => cases hhead
  | first :: heads => exact ⟨first, _, rfl, Option.some_inj.1 hhead⟩

/-- A packet that describes a track is that of a descriptor of the call. -/
private theorem Written.descriptor {call : List RawSpan × List RawSpan} {packets : List TracePacket}
    (h : Written pid call packets) (hpacket : packet ∈ packets)
    (hdescribes : packet.describesProcess = true ∨ packet.describesThread = true) :
    ∃ d ∈ call.1, packet.data = (descriptorPacket pid d {}).data := by
  obtain ⟨heads, events, rfl, hheads, hevents⟩ := h.shape
  rcases List.mem_append.1 hpacket with hhead | hevent
  · obtain ⟨d, hd, hdata⟩ := List.mem_map.1 (hheads.mem_iff.1 (List.mem_map_of_mem hhead))
    exact ⟨d, hd, hdata.symm⟩
  · obtain ⟨span, -, event, hdata, -⟩ := hevents packet hevent
    simp [TracePacket.describesProcess, TracePacket.describesThread, hdata] at hdescribes

end Packets

/-! ### The first call of `consume` -/

section Heralded

variable {T : Type} [DecidableEq T] {info : T → ThreadInfo} {w w' : World T} {t : T} {op : Op}

private theorem consumed_of_none (hw : w.step info (t, op) = some w') (hconsumes : w.consumes t op = none) :
    w'.consumed = w.consumed := by
  cases step_descriptors hw with
  | kept hdescriptors hflushed hconsumed => exact hconsumed
  | thread hop henabled hinitialized hdescriptors hflushed hconsumed => exact hconsumed
  | process hop hphase hnever hdescriptors hflushed hconsumed => exact hconsumed
  | drained hsome =>
    rw [hconsumes] at hsome
    cases hsome

/-- No descriptor leaves the map. -/
private theorem descriptors_keep (hw : w.step info (t, op) = some w') {d : RawSpan}
    (hd : (w.descriptors.get? d).isSome = true) : (w'.descriptors.get? d).isSome = true :=
  (step_spreads hw).keeps d hd

/-- The descriptor of the process is in the map when spans are consumed, and the first call of `consume` drains all. -/
structure Heralded (w : World T) : Prop where
  delivering : ∀ u batches, w.phase u = .delivering batches → w.flushedOnce = true
  process : w.flushedOnce = true → ∃ d, (w.descriptors.get? d).isSome = true ∧ d.typ = .processDiscriptor
  undrained : w.consumed = [] → ∀ d, w.descriptors.get? d ≠ some true

theorem Heralded.step (h : Heralded w) (hw : w.step info (t, op) = some w') : Heralded w' := by
  have hstep := step_descriptors hw
  have hinsert : ∀ d, w'.descriptors = w.descriptors.insert d false → w'.consumed = w.consumed →
      w'.consumed = [] → ∀ d', w'.descriptors.get? d' ≠ some true := by
    intro d hdescriptors hconsumed hnil d'
    rw [hdescriptors, HashMap.get?_insert]
    split
    · simp
    · exact h.undrained (hconsumed ▸ hnil) d'
  have hflushed : w.flushedOnce = true → w'.flushedOnce = true := by
    intro hw
    cases hstep with
    | kept hdescriptors hflushed => exact hflushed.trans hw
    | thread hop henabled hinitialized hdescriptors hflushed => exact hflushed.trans hw
    | process hop hphase hnever hdescriptors hflushed => exact hflushed
    | drained hconsumes hdescriptors hflushed => exact hflushed.trans hw
  constructor
  case delivering =>
    intro u batches hu
    rcases delivering_of_step hw hu with hflag | ⟨batches', hbatches'⟩
    · exact hflag
    · exact hflushed (h.delivering u batches' hbatches')
  case process =>
    intro hflag
    have hkeep : w.flushedOnce = true →
        ∃ d, (w'.descriptors.get? d).isSome = true ∧ d.typ = .processDiscriptor := by
      intro hold
      obtain ⟨d, hd, htyp⟩ := h.process hold
      exact ⟨d, descriptors_keep hw hd, htyp⟩
    cases hstep with
    | kept hdescriptors hflushed => exact hkeep (hflushed ▸ hflag)
    | thread hop henabled hinitialized hdescriptors hflushed => exact hkeep (hflushed ▸ hflag)
    | process hop hphase hnever hdescriptors hflushed =>
      refine ⟨processDescriptor (info t), ?_, rfl⟩
      rw [hdescriptors, HashMap.get?_insert, if_pos rfl]
      rfl
    | drained hconsumes hdescriptors hflushed => exact hkeep (hflushed ▸ hflag)
  case undrained =>
    intro hnil d
    cases hstep with
    | kept hdescriptors hflushed hconsumed =>
      rw [hdescriptors]
      exact h.undrained (hconsumed ▸ hnil) d
    | thread hop henabled hinitialized hdescriptors hflushed hconsumed => exact hinsert _ hdescriptors hconsumed hnil d
    | process hop hphase hnever hdescriptors hflushed hconsumed => exact hinsert _ hdescriptors hconsumed hnil d
    | drained hconsumes hdescriptors hflushed hconsumed =>
      rw [hconsumed] at hnil
      simp at hnil

private theorem Heralded.unwind (h : Heralded w) (t : T) : Heralded (w.unwind t) := by
  refine ⟨fun u batches hu => ?_, h.process, h.undrained⟩
  change Function.update w.phase t .idle u = _ at hu
  rw [Function.update_apply] at hu
  split at hu
  · cases hu
  · exact h.delivering u batches hu

omit [DecidableEq T] in
private theorem heralded_init (shardNum : Nat) (hpos : 0 < shardNum) : Heralded (World.init shardNum hpos : World T) :=
  ⟨fun u batches hu => (by cases hu), fun hflag => (by cases hflag), fun _ d hd => (by cases hd)⟩

/-- As long as no descriptor has been drained the iterator's order is that of the drained descriptors. -/
private theorem drained_of_undrained {m : HashMap RawSpan Bool} (h : ∀ d, m.get? d ≠ some true)
    (order : IterOrder RawSpan) :
    (drainDescriptors order m).1 = order.visit m.keys := by
  refine List.filter_eq_self.2 fun d hd => ?_
  have hkey : (m.get? d).isSome = true := HashMap.mem_keys.1 ((order.perm m.keys).mem_iff.1 hd)
  cases hflag : m.get? d with
  | none => rw [hflag] at hkey; cases hkey
  | some drained =>
    cases drained with
    | false => simp
    | true => exact absurd hflag (h d)

end Heralded

section First

variable {T : Type} [DecidableEq T] {pid : Int32} {info : T → ThreadInfo} {s s' : Tracer T} {t : T} {a : TracerOp}
  {shardNum : Nat} {hpos : 0 < shardNum} {as : List (T × TracerOp)}

private theorem heralded_of_run (hrun : Steps.run (Tracer.step pid info) (Tracer.init shardNum hpos) as = some s) :
    Heralded s.world :=
  world_induction (fun _ _ _ h hw => h.step hw) (fun _ t h => h.unwind t) (heralded_init shardNum hpos) hrun

/-- What the first call of `consume` visits last, in a call that writes, is described in the first packet. -/
private theorem Acts.first_packet (h : Acts pid info s t a s') (hheralded : Heralded s.world)
    (hdescribed : Described info s.world) {order : IterOrder RawSpan} {batch : List RawSpan}
    (hconsumes : s.world.consumes t a.op = some (order, batch)) (hfirst : s.world.consumed = [])
    (houtput : s.output = []) (htypes : ∀ span ∈ batch, span.typ.isSlice = true) (htakes : a.failsAfter ≠ some 0) :
    ∃ d first rest, (order.visit s.world.descriptors.keys).getLast? = some d ∧ d.typ.isDescriptor = true ∧
      s'.output = first :: rest ∧ first.data = (descriptorPacket pid d {}).data := by
  have hdrained := drained_of_undrained (hheralded.undrained hfirst) order
  -- the descriptor of the process is one of them
  obtain ⟨-, batches, hphase⟩ := consumes_eq_some.1 hconsumes
  obtain ⟨p, hp, -⟩ := hheralded.process (hheralded.delivering t _ hphase)
  have hmem : p ∈ order.visit s.world.descriptors.keys := (order.perm _).mem_iff.2 (HashMap.mem_keys.2 hp)
  obtain ⟨d, hlast⟩ : ∃ d, (order.visit s.world.descriptors.keys).getLast? = some d :=
    ⟨_, List.getLast?_eq_some_getLast (List.ne_nil_of_mem hmem)⟩
  have hd : d ∈ (drainDescriptors order s.world.descriptors).1 := by
    rw [hdrained]
    exact List.mem_of_getLast? hlast
  have htyp := hdescribed.isDescriptor_of_drained hd
  cases h with
  | moved hw hnone =>
    rw [hconsumes] at hnone
    cases hnone
  | panicked hw hsome hpanics =>
    rw [hconsumes] at hsome
    cases hsome
    exact absurd ⟨fun d hd => hdescribed.isDescriptor_of_drained hd, htypes⟩ hpanics
  | wrote hw hsome hw' hpackets =>
    rw [hconsumes] at hsome
    cases hsome
    rw [hdrained] at hpackets
    obtain ⟨first, rest, rfl, hdata⟩ := hpackets.head hlast
    rw [houtput, List.nil_append]
    unfold TracerOp.takes
    match hfails : a.failsAfter with
    | none => exact ⟨d, first, rest, hlast, htyp, rfl, hdata⟩
    | some 0 => exact absurd hfails htakes
    | some (n + 1) => exact ⟨d, first, rest.take n, hlast, htyp, rfl, hdata⟩

/-- A step without a call of `consume` writes nothing, and one with a call adds to the output. -/
private theorem Acts.output (h : Acts pid info s t a s') :
    s.world.consumes t a.op = none ∧ s'.world.consumed = s.world.consumed ∧ s'.output = s.output ∨
      ∃ order batch drained more, s.world.consumes t a.op = some (order, batch) ∧
        s'.world.consumed = s.world.consumed ++ [(drained, batch)] ∧ s'.output = s.output ++ more := by
  cases h with
  | moved hw hconsumes => exact Or.inl ⟨hconsumes, consumed_of_none hw hconsumes, rfl⟩
  | panicked hw hconsumes htypes =>
    exact Or.inr ⟨_, _, _, [], hconsumes, (step_of_consumes hw hconsumes).2.1, (List.append_nil _).symm⟩
  | wrote hw hconsumes hw' hpackets =>
    have hconsumed := (step_of_consumes hw hconsumes).2.1
    rcases hw' with rfl | rfl
    · exact Or.inr ⟨_, _, _, _, hconsumes, hconsumed, rfl⟩
    · exact Or.inr ⟨_, _, _, _, hconsumes, hconsumed, rfl⟩

/-- Nothing is written before the first call of `consume`. -/
private theorem output_of_unconsumed (hrun : Steps.run (Tracer.step pid info) (Tracer.init shardNum hpos) as = some s) :
    s.world.consumed = [] → s.output = [] := by
  refine Steps.run_induction (P := fun s : Tracer T => s.world.consumed = [] → s.output = []) ?_ (fun _ => rfl) hrun
  rintro s ⟨t, a⟩ s' h hs hnil
  rcases (step_acts hs).output with ⟨-, hconsumed, houtput⟩ | ⟨order, batch, drained, more, -, hconsumed, -⟩
  · rw [houtput]
    exact h (hconsumed ▸ hnil)
  · rw [hconsumed] at hnil
    simp at hnil

/-- The first call of `consume`, when it writes, has described the process first just when it has visited its
descriptor last. -/
theorem processFirst_first_call_iff (hrun : Steps.run (Tracer.step pid info) (Tracer.init shardNum hpos) as = some s)
    (hs : s.step pid info (t, a) = some s') {order : IterOrder RawSpan} {batch : List RawSpan}
    (hconsumes : s.world.consumes t a.op = some (order, batch)) (hfirst : s.world.consumed = [])
    (htypes : ∀ span ∈ batch, span.typ.isSlice = true) (htakes : a.failsAfter ≠ some 0) :
    ProcessFirst s'.output ↔
      (order.visit s.world.descriptors.keys).getLast?.map RawSpan.typ = some .processDiscriptor := by
  obtain ⟨d, first, rest, hlast, hd, houtput, hdata⟩ := (step_acts hs).first_packet (heralded_of_run hrun)
    (Tracer.described_of_run hrun) hconsumes hfirst (output_of_unconsumed hrun hfirst) htypes htakes
  rw [houtput, processFirst_cons, describesProcess_iff hd hdata, hlast, Option.map_some, Option.some_inj]

/-- If the step makes the first call of `consume`, the call visits the descriptor of the process last, gets no span at
which it panics, and its writer takes a packet. -/
def ProcessLast (s : Tracer T) (a : T × TracerOp) : Prop :=
  ∀ call ∈ s.world.consumes a.1 a.2.op, s.world.consumed = [] →
    (call.1.visit s.world.descriptors.keys).getLast?.map RawSpan.typ = some .processDiscriptor ∧
      (∀ span ∈ call.2, span.typ.isSlice = true) ∧ a.2.failsAfter ≠ some 0

instance (s : Tracer T) (a : T × TracerOp) : Decidable (ProcessLast s a) :=
  inferInstanceAs (Decidable (∀ call ∈ s.world.consumes a.1 a.2.op, s.world.consumed = [] → _ ∧ _ ∧ _))

/-- What a run in which the first call visits the descriptor of the process last keeps. -/
structure Opened (info : T → ThreadInfo) (s : Tracer T) : Prop where
  heralded : Heralded s.world
  described : Described info s.world
  before : s.world.consumed = [] → s.output = []
  after : s.world.consumed ≠ [] → ∃ first rest, s.output = first :: rest ∧ first.describesProcess = true

omit [DecidableEq T] in
private theorem Opened.processFirst (h : Opened info s) : ProcessFirst s.output := by
  by_cases hconsumed : s.world.consumed = []
  · rw [h.before hconsumed]
    exact processFirst_nil
  · obtain ⟨first, rest, houtput, hprocess⟩ := h.after hconsumed
    rw [houtput]
    exact processFirst_cons.2 hprocess

private theorem Acts.opened (h : Acts pid info s t a s') (hs : Opened info s) (hlast : ProcessLast s (t, a)) :
    Opened info s' := by
  have hheralded : Heralded s'.world := h.keeps (fun _ _ _ h hw => h.step hw) (fun _ t h => h.unwind t) hs.heralded
  have hdescribed : Described info s'.world :=
    h.keeps (fun _ _ _ h hw => h.step hw) (fun _ t h => h.unwind t) hs.described
  rcases h.output with ⟨-, hconsumed, houtput⟩ | ⟨order, batch, drained, more, hconsumes, hconsumed, houtput⟩
  · refine ⟨hheralded, hdescribed, ?_, ?_⟩ <;> rw [hconsumed, houtput]
    · exact hs.before
    · exact hs.after
  · refine ⟨hheralded, hdescribed, fun hnil => ?_, fun _ => ?_⟩
    · rw [hconsumed] at hnil
      simp at hnil
    · by_cases hfirst : s.world.consumed = []
      · obtain ⟨hvisit, htypes, htakes⟩ := hlast _ hconsumes hfirst
        obtain ⟨d, first, rest, hd, htyp, houtput', hdata⟩ :=
          h.first_packet hs.heralded hs.described hconsumes hfirst (hs.before hfirst) htypes htakes
        refine ⟨first, rest, houtput', (describesProcess_iff htyp hdata).2 ?_⟩
        rw [hd] at hvisit
        exact Option.some_inj.1 hvisit
      · obtain ⟨first, rest, hold, hprocess⟩ := hs.after hfirst
        exact ⟨first, rest ++ more, by rw [houtput, hold, List.cons_append], hprocess⟩

/-- In every run whose first call of `consume` visits the descriptor of the process last and writes it, the process is
described before everything else. -/
theorem process_first_of_meet (hmeet : Steps.Meet (Tracer.step pid info) ProcessLast (Tracer.init shardNum hpos) as)
    (hrun : Steps.run (Tracer.step pid info) (Tracer.init shardNum hpos) as = some s) : ProcessFirst s.output := by
  have hinit : Opened info (Tracer.init shardNum hpos : Tracer T) :=
    ⟨heralded_init shardNum hpos, described_init shardNum hpos, fun _ => rfl, fun h => absurd rfl h⟩
  have hopened : Opened info s :=
    Steps.meet_induction (fun _ _ _ h hlast hs => (step_acts hs).opened h hlast) hinit hmeet hrun
  exact hopened.processFirst

end First

/-- With one shard `a` creates and drops a span, and `u` flushes. -/
def parkAndFlushBy (u : TwoThreads) (order : IterOrder RawSpan) : List (TwoThreads × TracerOp) :=
  (List.flatten [[(.a, .threadStart), (.b, .threadStart), (.a, .start), (.a, .span 0 .runtimePark ⟨5⟩),
    (.a, .dropSpan 0 ⟨6⟩)], nexts .a 1, [(u, .flush)], List.replicate 9 (u, .next order)]).map
    fun a => (a.1, ⟨a.2, smallCall.anchor, none⟩)

def parkedBy (u : TwoThreads) (order : IterOrder RawSpan) : Tracer TwoThreads :=
  (Steps.run (Tracer.step 7 twoThreads) (Tracer.init 1 Nat.one_pos) (parkAndFlushBy u order)).getD
    (Tracer.init 1 Nat.one_pos)

def reversedOrder : IterOrder RawSpan := ⟨List.reverse, List.reverse_perm⟩

theorem process_first_park :
    (parkedBy .a reversedOrder).output.length = 4 ∧ ProcessFirst (parkedBy .a reversedOrder).output := by
  have hrun : Steps.run (Tracer.step 7 twoThreads) (Tracer.init 1 Nat.one_pos) (parkAndFlushBy .a reversedOrder) =
      some (parkedBy .a reversedOrder) := Steps.run_eq_getD (by decide +kernel)
  exact ⟨by decide +kernel, process_first_of_meet (by decide +kernel) hrun⟩

/-- When the descriptor of the thread is visited last, it comes first. -/
theorem thread_first_park :
    Steps.run (Tracer.step 7 twoThreads) (Tracer.init 1 Nat.one_pos) (parkAndFlushBy .b .stored) =
        some (parkedBy .b .stored) ∧
      (parkedBy .b .stored).output.head?.map TracePacket.describesThread = some true ∧
      ¬ProcessFirst (parkedBy .b .stored).output := by
  refine ⟨Steps.run_eq_getD (by decide +kernel), by decide +kernel, fun h => ?_⟩
  have hhead : (parkedBy .b .stored).output.head?.map TracePacket.describesProcess = some false := by decide +kernel
  match houtput : (parkedBy .b .stored).output with
  | [] =>
    rw [houtput] at hhead
    cases hhead
  | first :: rest =>
    rw [houtput] at h hhead
    rw [List.head?_cons, Option.map_some, processFirst_cons.1 h] at hhead
    cases hhead

/-! ### Uuids -/

section Uuids

variable {T : Type} {pid : Int32} {info : T → ThreadInfo}

/-- Every packet that describes a track is that of a descriptor in the map. -/
def Sourced (pid : Int32) (s : Tracer T) : Prop :=
  ∀ p ∈ s.output, p.describesProcess = true ∨ p.describesThread = true →
    ∃ d, (s.world.descriptors.get? d).isSome = true ∧ p.data = (descriptorPacket pid d {}).data

/-- No thread in the map has the id in the descriptor of the process. -/
def Apart (w : World T) : Prop :=
  ∀ d d', (w.descriptors.get? d).isSome = true → (w.descriptors.get? d').isSome = true →
    d.typ = .processDiscriptor → (∃ name, d'.typ = .threadDiscriptor name) → d.threadId ≠ d'.threadId

def Op.createsSpan : Op → Bool
  | .span _ _ _ => true
  | _ => false

/-- A thread that creates its first span does not have the id in the descriptor of the process, and the thread of the
first flush not that in the descriptor of a thread. -/
def ProcessIdUnused (info : T → ThreadInfo) (s : Tracer T) (a : T × TracerOp) : Prop :=
  (a.2.op.createsSpan = true → s.world.enabled = true → s.world.initialized a.1 = false →
      ∀ d ∈ s.world.descriptors.keys, d.typ = .processDiscriptor → d.threadId ≠ (info a.1).id) ∧
    (s.world.phase a.1 = .collected true → s.world.flushedOnce = false →
      ∀ d ∈ s.world.descriptors.keys, d.threadId ≠ (info a.1).id)

instance (s : Tracer T) (a : T × TracerOp) : Decidable (ProcessIdUnused info s a) :=
  inferInstanceAs (Decidable ((_ → _ → _ → _) ∧ (_ → _ → _)))

/-- Among the packets with descriptors, those of the process and of a thread have different uuids, and so have those
of two threads that are alive `together`. -/
structure UniqueUuids (pid : Int32) (info : T → ThreadInfo) (together : T → T → Prop) (output : List TracePacket) :
    Prop where
  process : ∀ p ∈ output, ∀ q ∈ output, p.describesProcess = true → q.describesThread = true →
    p.descriptorUuid ≠ q.descriptorUuid
  /-- A packet that describes a thread is that of some thread. -/
  thread : ∀ q ∈ output, q.describesThread = true →
    ∃ u, q.data = (descriptorPacket pid (threadDescriptor (info u)) {}).data
  threads : ∀ u v, u ≠ v → together u v → ∀ p ∈ output, ∀ q ∈ output,
    p.data = (descriptorPacket pid (threadDescriptor (info u)) {}).data →
    q.data = (descriptorPacket pid (threadDescriptor (info v)) {}).data → p.descriptorUuid ≠ q.descriptorUuid

variable [DecidableEq T] {s s' : Tracer T} {t : T} {a : TracerOp} {shardNum : Nat} {hpos : 0 < shardNum}
  {as : List (T × TracerOp)}

/-- Both threads are alive in some state of the run. -/
def AliveTogether (pid : Int32) (info : T → ThreadInfo) (s₀ : Tracer T) (as : List (T × TracerOp)) (u v : T) : Prop :=
  ∃ before after s, as = before ++ after ∧ Steps.run (Tracer.step pid info) s₀ before = some s ∧
    u ∈ s.world.alive ∧ v ∈ s.world.alive

private theorem Acts.sourced (h : Acts pid info s t a s') (hs : Sourced pid s) : Sourced pid s' := by
  obtain ⟨w, hw, hworld⟩ := h.world
  have hdescriptors : s'.world.descriptors = w.descriptors := by
    rcases hworld with hworld | hworld <;> rw [hworld]
    rfl
  have hold : ∀ p ∈ s.output, p.describesProcess = true ∨ p.describesThread = true →
      ∃ d, (s'.world.descriptors.get? d).isSome = true ∧ p.data = (descriptorPacket pid d {}).data := by
    intro p hp hdescribes
    obtain ⟨d, hd, hdata⟩ := hs p hp hdescribes
    rw [hdescriptors]
    exact ⟨d, descriptors_keep hw hd, hdata⟩
  cases h with
  | moved => exact hold
  | panicked => exact hold
  | wrote hw' hconsumes hworld' hpackets =>
    intro p hp hdescribes
    rcases List.mem_append.1 hp with hp | hp
    · exact hold p hp hdescribes
    · obtain ⟨d, hd, hdata⟩ := hpackets.descriptor ((a.takes_prefix _).subset hp) hdescribes
      rw [mem_drained] at hd
      refine ⟨d, ?_, hdata⟩
      rw [hdescriptors]
      exact descriptors_keep hw (by rw [hd]; rfl)

private theorem sourced_of_run (hrun : Steps.run (Tracer.step pid info) (Tracer.init shardNum hpos) as = some s) :
    Sourced pid s :=
  Steps.run_induction (fun _ _ _ h hs => (step_acts hs).sourced h) (fun _ hp => (by cases hp)) hrun

private theorem Acts.apart (h : Acts pid info s t a s') (hs : Apart s.world) (hunused : ProcessIdUnused info s (t, a)) :
    Apart s'.world := by
  obtain ⟨w, hw, hworld⟩ := h.world
  have hdescriptors : s'.world.descriptors = w.descriptors := by
    rcases hworld with hworld | hworld <;> rw [hworld]
    rfl
  unfold Apart
  rw [hdescriptors]
  cases step_descriptors hw with
  | kept hkept =>
    rw [hkept]
    exact hs
  | thread hop henabled hinitialized hinsert =>
    rw [hinsert]
    intro d d' hd hd' hprocess hthread
    rw [HashMap.get?_insert] at hd hd'
    split at hd
    · rename_i hnew
      rw [hnew] at hprocess
      cases hprocess
    split at hd'
    · rename_i hnew
      rw [hnew]
      exact hunused.1 (by rw [hop]; rfl) henabled hinitialized d (HashMap.mem_keys.2 hd) hprocess
    · exact hs d d' hd hd' hprocess hthread
  | process hop hphase hnever hinsert =>
    rw [hinsert]
    intro d d' hd hd' hprocess hthread
    rw [HashMap.get?_insert] at hd hd'
    split at hd'
    · rename_i hnew
      obtain ⟨name, hname⟩ := hthread
      rw [hnew] at hname
      cases hname
    split at hd
    · rename_i hnew
      rw [hnew]
      exact (hunused.2 hphase hnever d' (HashMap.mem_keys.2 hd')).symm
    · exact hs d d' hd hd' hprocess hthread
  | drained hconsumes hdrained =>
    rw [hdrained]
    intro d d' hd hd'
    exact hs d d' (get?_drained_isSome.1 hd) (get?_drained_isSome.1 hd')

/-- The uuid of a thread's track is its id. -/
private theorem thread_uuids_ne (hrun : Steps.run (Tracer.step pid info) (Tracer.init shardNum hpos) as = some s)
    {u v : T}
    (hne : u ≠ v) (htogether : AliveTogether pid info (Tracer.init shardNum hpos) as u v) {p q : TracePacket}
    (hp : p.data = (descriptorPacket pid (threadDescriptor (info u)) {}).data)
    (hq : q.data = (descriptorPacket pid (threadDescriptor (info v)) {}).data) :
    p.descriptorUuid ≠ q.descriptorUuid := by
  obtain ⟨before, after, s₁, rfl, hbefore, hu, hv⟩ := htogether
  have hids := (Tracer.described_of_run hbefore).ids u hu v hv hne
  rw [descriptorUuid_eq hp, descriptorUuid_eq hq]
  exact fun heq => hids (Option.some_inj.1 heq)

/-- In every run in which no thread that creates a span has the id of the thread of the first flush, the uuids of
different tracks are different. -/
theorem unique_uuids_of_meet
    (hmeet : Steps.Meet (Tracer.step pid info) (ProcessIdUnused info) (Tracer.init shardNum hpos) as)
    (hrun : Steps.run (Tracer.step pid info) (Tracer.init shardNum hpos) as = some s) :
    UniqueUuids pid info (AliveTogether pid info (Tracer.init shardNum hpos) as) s.output := by
  have hsourced := sourced_of_run hrun
  have hdescribed := Tracer.described_of_run hrun
  have hapart : Apart s.world :=
    Steps.meet_induction (P := fun s : Tracer T => Apart s.world)
      (fun _ _ _ h hunused hs => (step_acts hs).apart h hunused) (fun d _ hd => (by cases hd)) hmeet hrun
  constructor
  case process =>
    intro p hp q hq hprocess hthread
    obtain ⟨d, hd, hdata⟩ := hsourced p hp (Or.inl hprocess)
    obtain ⟨d', hd', hdata'⟩ := hsourced q hq (Or.inr hthread)
    have htyp : d.typ = .processDiscriptor := (describesProcess_iff (hdescribed.isDescriptor hd) hdata).1 hprocess
    rw [descriptorUuid_eq hdata, descriptorUuid_eq hdata']
    exact fun heq => hapart d d' hd hd' htyp ((describesThread_iff hdata').1 hthread) (Option.some_inj.1 heq)
  case thread =>
    intro q hq hthread
    obtain ⟨d, hd, hdata⟩ := hsourced q hq (Or.inr hthread)
    rcases hdescribed.of d hd with ⟨u, -, rfl⟩ | ⟨-, hprocess⟩
    · exact ⟨u, hdata⟩
    · obtain ⟨name, hname⟩ := (describesThread_iff hdata).1 hthread
      rw [hprocess] at hname
      cases hname
  case threads =>
    intro u v hne htogether p _ q _ hp hq
    exact thread_uuids_ne hrun hne htogether hp hq

end Uuids

theorem unique_uuids_park :
    (parkedBy .b reversedOrder).output.length = 4 ∧
      UniqueUuids 7 twoThreads (AliveTogether 7 twoThreads (Tracer.init 1 Nat.one_pos)
        (parkAndFlushBy .b reversedOrder)) (parkedBy .b reversedOrder).output :=
  ⟨by decide +kernel, unique_uuids_of_meet (by decide +kernel) (Steps.run_eq_getD (by decide +kernel))⟩

/-- The thread that flushes has created a span. -/
theorem shared_uuid_park :
    Steps.run (Tracer.step 7 twoThreads) (Tracer.init 1 Nat.one_pos) (parkAndFlushBy .a reversedOrder) =
        some (parkedBy .a reversedOrder) ∧
      ∃ p ∈ (parkedBy .a reversedOrder).output, ∃ q ∈ (parkedBy .a reversedOrder).output,
        p.describesProcess = true ∧ q.describesThread = true ∧ p.descriptorUuid = q.descriptorUuid :=
  ⟨Steps.run_eq_getD (by decide +kernel), by decide +kernel⟩

end RtTrace
