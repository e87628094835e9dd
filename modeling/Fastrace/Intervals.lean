import Fastrace.LocalSpanStack
import Fastrace.Mounting
import Fastrace.Steps
import Fastrace.Timeline
import Mathlib.Algebra.GroupWithZero.Nat

/-!
# The intervals of local spans

A span line used last in, first out, on a clock that never goes back, and collected at some time, also while local
spans are open.  `Recording.timeline` says what is recorded: which local span each entry is made in, when it begins
and when it ends.  The queue of the line says the same by ids and by an end instant that is zero as long as the span
is open (`Matches`), so the records lie inside one another as the entries of the timeline do (`intervals_nest`).
-/

namespace Fastrace

instance : Preorder Instant := Preorder.lift fun i => i.ticks.toNat

open Timeline (Shape Entry)

def RawSpan.shape (raw : RawSpan) : Shape Instant :=
  match raw.rawKind with
  | .span => .span raw.beginInstant (if raw.endInstant = Instant.zero then none else some raw.endInstant)
  | .event => .point raw.beginInstant
  | .properties => .untimed

structure Recording where
  line : SpanLine
  /-- The open local spans, innermost first. -/
  openSpans : List LocalSpanHandle
  timeline : Timeline Instant

namespace Recording

def init (capacity epoch : Nat) (collectToken : Option CollectToken) : Recording where
  line := SpanLine.new capacity epoch collectToken
  openSpans := []
  timeline := Timeline.empty

inductive Call where
  | startSpan (id : SpanId) (now : Instant) (name : String)
  /-- The innermost local span is dropped. -/
  | finishSpan (now : Instant)
  | addEvent (id : SpanId) (now : Instant) (event : Event)
  | addProperties (id : SpanId) (properties : Properties)
  /-- With the handle of an open local span. -/
  | withProperties (i : Nat) (properties : Properties)

/-- The clock reading of a call. -/
def Call.now? : Call → Option Instant
  | .startSpan _ now _ => some now
  | .finishSpan now => some now
  | .addEvent _ now _ => some now
  | _ => none

def queue (s : Recording) : List RawSpan := s.line.spanQueue.spanQueue

/-- After a call that adds an entry to the line, or is ignored by it. -/
def push (s : Recording) (line : SpanLine) (shape : Shape Instant) : Recording :=
  { s with
    line := line
    timeline := if s.queue.length < line.spanQueue.spanQueue.length then s.timeline.push shape else s.timeline }

def step (s : Recording) : Call → Option Recording
  | .startSpan id now name =>
    match s.line.startSpan id now name with
    | some (handle, line) =>
      some { line := line, openSpans := handle :: s.openSpans, timeline := s.timeline.start now }
    | none => some s
  | .finishSpan now =>
    match s.openSpans with
    | handle :: rest => (s.line.finishSpan handle now).map fun line =>
        { line := line, openSpans := rest, timeline := s.timeline.finish now }
    | [] => none
  | .addEvent id now event => some (s.push (s.line.addEvent id now event) (.point now))
  | .addProperties id properties => some (s.push (s.line.addProperties id properties) .untimed)
  | .withProperties i properties => s.openSpans[i]?.bind fun handle =>
      (s.line.withProperties handle properties).map fun line => { s with line := line }

/-! ### The queue and the timeline -/

/-- The id of the entry at a position of the queue, or the default id. -/
def idAt (queue : List RawSpan) (parent : Option Nat) : SpanId :=
  ((parent.bind fun i => queue[i]?).map RawSpan.id).getD default

structure Matches (s : Recording) : Prop where
  shapes : s.timeline.entries.map Entry.shape = s.queue.map RawSpan.shape
  opened : s.openSpans.map (fun x => x.spanHandle.index) = s.timeline.opened
  epochs : ∀ x ∈ s.openSpans, x.spanLineEpoch = s.line.epoch
  register : s.line.spanQueue.parentId = idAt s.queue s.timeline.opened.head?
  parents : s.timeline.entries.map (fun e => idAt s.queue e.parent) = s.queue.map RawSpan.parentId

private theorem matches_init (capacity epoch : Nat) (collectToken : Option CollectToken) :
    Matches (init capacity epoch collectToken) where
  shapes := rfl
  opened := rfl
  epochs x h := by cases h
  register := rfl
  parents := rfl

/-- An entry keeps its id when others are appended. -/
private theorem idAt_append {queue : List RawSpan} {parent : Option Nat} (h : ∀ i, parent = some i → i < queue.length)
    (raws : List RawSpan) : idAt (queue ++ raws) parent = idAt queue parent := by
  cases parent with
  | none => rfl
  | some i => simp only [idAt, Option.bind_some, List.getElem?_append_left (h i rfl)]

private theorem idAt_set {queue : List RawSpan} {i : Nat} {raw raw' : RawSpan} (hraw : queue[i]? = some raw)
    (hid : raw'.id = raw.id) (parent : Option Nat) : idAt (queue.set i raw') parent = idAt queue parent := by
  cases parent with
  | none => rfl
  | some j =>
    by_cases hij : i = j
    · subst hij
      simp only [idAt, Option.bind_some, hraw,
        List.getElem?_set_self (List.getElem?_eq_some_iff.1 hraw).1, Option.map_some, hid]
    · simp only [idAt, Option.bind_some, List.getElem?_set_ne hij]

private theorem map_modify_same {α β : Type} {l : List α} {f : α → α} {g : α → β} (h : ∀ a, g (f a) = g a) (i : Nat) :
    (l.modify i f).map g = l.map g := by
  apply List.ext_getElem?
  intro j
  rw [List.getElem?_map, List.getElem?_map, List.getElem?_modify]
  by_cases hij : i = j <;> simp [hij, h, Option.map_map, Function.comp_def]

private theorem ended_shape {raw : RawSpan} {start now : Instant} (h : raw.shape = .span start none)
    (hnow : now ≠ Instant.zero) : (raw.endWith now).shape = .span start (some now) := by
  unfold RawSpan.shape at h
  split at h
  · rename_i hkind
    obtain ⟨rfl, -⟩ := Shape.span.inj h
    simp [RawSpan.shape, RawSpan.endWith, hkind, hnow]
  · cases h
  · cases h

section

variable {s : Recording} {last now : Instant}

private theorem Matches.length_eq (h : s.Matches) : s.timeline.entries.length = s.queue.length := by
  simpa using congrArg List.length h.shapes

/-- The ids of the parents stay when entries are added. -/
private theorem parents_append (h : s.Matches) (hn : s.timeline.Nested last) (raws : List RawSpan) :
    s.timeline.entries.map (fun e => idAt (s.queue ++ raws) e.parent) = s.queue.map RawSpan.parentId := by
  rw [← h.parents]
  apply List.map_congr_left
  intro e he
  obtain ⟨i, hi⟩ := List.mem_iff_getElem?.1 he
  refine idAt_append (fun p hp => ?_) raws
  have hlt := (hn.inside i e p hi hp).1
  have := (List.getElem?_eq_some_iff.1 hi).1
  rw [← h.length_eq]
  omega

private theorem register_append (h : s.Matches) (hn : s.timeline.Nested last) (raws : List RawSpan) :
    s.line.spanQueue.parentId = idAt (s.queue ++ raws) s.timeline.opened.head? := by
  rw [h.register]
  refine (idAt_append (fun i hi => ?_) raws).symm
  rw [← h.length_eq]
  exact hn.lt_length (List.mem_of_mem_head? hi)

/-- An event or properties are recorded at the end of the queue, in the innermost local span. -/
private theorem Matches.push (h : s.Matches) (hn : s.timeline.Nested last) {line : SpanLine} {raw : RawSpan}
    (hepoch : line.epoch = s.line.epoch) (hraw : raw.parentId = s.line.spanQueue.parentId)
    (hqueue : line.spanQueue = { s.line.spanQueue with spanQueue := s.queue ++ [raw] }) :
    (s.push line raw.shape).Matches := by
  have hlt : s.queue.length < line.spanQueue.spanQueue.length := by rw [hqueue]; simp
  unfold Recording.push
  rw [if_pos hlt]
  have hq : ∀ timeline, queue { s with line := line, timeline := timeline } = s.queue ++ [raw] := fun _ => by
    simp only [queue, hqueue]
  refine ⟨?_, h.opened, fun x hx => (h.epochs x hx).trans hepoch.symm, ?_, ?_⟩
  · simp [hq, Timeline.push, h.shapes]
  · rw [hq]
    change line.spanQueue.parentId = idAt (s.queue ++ [raw]) s.timeline.opened.head?
    rw [← register_append h hn, hqueue]
    rfl
  · rw [hq]
    simp only [Timeline.push, List.map_append, List.map_cons, List.map_nil]
    rw [parents_append h hn, ← register_append h hn, hraw]

private theorem Matches.start (h : s.Matches) (hn : s.timeline.Nested last) {id : SpanId} {name : String}
    {handle : LocalSpanHandle} {line : SpanLine} (hs : s.line.startSpan id now name = some (handle, line)) :
    Matches { line := line, openSpans := handle :: s.openSpans, timeline := s.timeline.start now } := by
  unfold SpanLine.startSpan SpanQueue.startSpan at hs
  split at hs
  · cases hs
  · split at hs
    · cases hs
    · cases hs
      refine ⟨?_, ?_, ?_, ?_, ?_⟩
      · simp [Timeline.start, Timeline.push, queue, RawSpan.shape, RawSpan.beginWith, h.shapes]
      · simpa [Timeline.start, queue] using ⟨h.length_eq.symm, h.opened⟩
      · intro x hx
        rcases List.mem_cons.1 hx with rfl | hx
        · rfl
        · exact h.epochs x hx
      · -- the register holds the id of the new entry, which is now the innermost
        have hlen := h.length_eq
        simp only [queue] at hlen
        simp [Timeline.start, queue, idAt, SpanQueue.parentId, hlen, RawSpan.beginWith]
      · simp only [Timeline.start, Timeline.push, List.map_append, List.map_cons, List.map_nil, queue]
        have hparents := parents_append h hn [RawSpan.beginWith id s.line.spanQueue.parentId now name .span]
        have hregister := register_append h hn [RawSpan.beginWith id s.line.spanQueue.parentId now name .span]
        simp only [queue] at hparents hregister
        rw [hparents, ← hregister]
        rfl

private theorem Matches.finish (h : s.Matches) (hn : s.timeline.Nested last) (hnow : now ≠ Instant.zero)
    {handle : LocalSpanHandle} {rest : List LocalSpanHandle} (hopen : s.openSpans = handle :: rest) {line : SpanLine}
    (hs : s.line.finishSpan handle now = some line) :
    Matches { line := line, openSpans := rest, timeline := s.timeline.finish now } := by
  have hopened := h.opened
  rw [hopen, List.map_cons] at hopened
  unfold SpanLine.finishSpan at hs
  rw [if_pos (h.epochs handle (by rw [hopen]; exact List.mem_cons_self ..)).symm] at hs
  obtain ⟨q, hq, rfl⟩ := Option.map_eq_some_iff.1 hs
  unfold SpanQueue.finishSpan at hq
  split at hq
  · cases hq
  · rename_i raw hraw
    cases hq
    obtain ⟨parent, start, hentry⟩ := (hn.opened handle.spanHandle.index).1 (by
      rw [← hopened]
      exact List.mem_cons_self ..)
    have hlinked := hn.linked
    rw [← hopened] at hlinked
    have hparent : raw.parentId = idAt s.queue parent := by
      have hp := congrArg (fun l => l[handle.spanHandle.index]?) h.parents
      simp only [List.getElem?_map, hentry, queue, hraw, Option.map_some, Option.some.injEq] at hp
      exact hp.symm
    have hshape : raw.shape = .span start none := by
      have hp := congrArg (fun l => l[handle.spanHandle.index]?) h.shapes
      simp only [List.getElem?_map, hentry, queue, hraw, Option.map_some, Option.some.injEq] at hp
      exact hp.symm
    have htimeline : s.timeline.finish now =
        ⟨s.timeline.entries.modify handle.spanHandle.index (Entry.close now),
          rest.map fun x => x.spanHandle.index⟩ := by
      unfold Timeline.finish
      rw [← hopened]
    rw [htimeline]
    refine ⟨?_, rfl, fun x hx => h.epochs x (by rw [hopen]; exact List.mem_cons_of_mem _ hx), ?_, ?_⟩
    · apply List.ext_getElem?
      intro j
      have hj := congrArg (fun l => l[j]?) h.shapes
      simp only [List.getElem?_map, queue] at hj ⊢
      by_cases hij : handle.spanHandle.index = j
      · subst hij
        rw [List.getElem?_modify_eq, hentry, List.getElem?_set_self (List.getElem?_eq_some_iff.1 hraw).1]
        simp [Entry.close, ended_shape hshape hnow]
      · rw [List.getElem?_modify_ne _ _ hij, List.getElem?_set_ne hij, hj]
    · change ((some raw.parentId).filter fun id => decide (id ≠ default)).getD default = _
      have hrestored : ((some raw.parentId).filter fun id => decide (id ≠ default)).getD default = raw.parentId := by
        by_cases hd : raw.parentId = default <;> simp [Option.filter, hd]
      rw [hrestored, hparent]
      have hhead : parent = (rest.map fun x => x.spanHandle.index).head? := by
        have := hlinked.1
        rw [hentry] at this
        exact Option.some.inj this
      rw [hhead]
      exact (idAt_set hraw (by rfl : (raw.endWith now).id = raw.id) _).symm
    · simp only [queue]
      rw [map_set_same hraw (by rfl : (raw.endWith now).parentId = raw.parentId)]
      rw [map_modify_same fun e => by rw [e.close_parent]]
      simp only [idAt_set hraw (by rfl : (raw.endWith now).id = raw.id)]
      exact h.parents

private theorem Matches.set (h : s.Matches) {i : Nat} {raw raw' : RawSpan} (hraw : s.queue[i]? = some raw)
    (hid : raw'.id = raw.id) (hparent : raw'.parentId = raw.parentId) (hshape : raw'.shape = raw.shape) :
    Matches { s with line := { s.line with
      spanQueue := { s.line.spanQueue with spanQueue := s.queue.set i raw' } } } where
  shapes := by
    rw [h.shapes]
    exact (map_set_same hraw hshape).symm
  opened := h.opened
  epochs := h.epochs
  register := h.register.trans (idAt_set hraw hid _).symm
  parents := by
    simp only [queue]
    refine Eq.trans ?_ (map_set_same hraw hparent).symm
    rw [← h.parents]
    exact List.map_congr_left fun e _ => idAt_set hraw hid _

/-- A call whose line ignores it leaves everything as it is. -/
private theorem push_self (s : Recording) (shape : Shape Instant) : s.push s.line shape = s := by
  simp [Recording.push, queue]

private theorem step_push (h : s.Matches) (hn : s.timeline.Nested last) (hle : last ≤ now) {line : SpanLine}
    (raw : RawSpan) (hline : line = s.line ∨ line = { s.line with
      spanQueue := { s.line.spanQueue with spanQueue := s.queue ++ [raw] } })
    (hparent : raw.parentId = s.line.spanQueue.parentId) (hbefore : raw.shape.Before now)
    (hnot : ∀ start finish, raw.shape ≠ .span start finish)
    (hinside : ∀ start, start ≤ last → Timeline.Inside start none raw.shape) :
    (s.push line raw.shape).Matches ∧ (s.push line raw.shape).timeline.Nested now := by
  rcases hline with rfl | rfl
  · rw [push_self]
    exact ⟨h, hn.mono hle⟩
  · refine ⟨h.push hn rfl hparent rfl, ?_⟩
    have hlt : s.queue.length < (s.queue ++ [raw]).length := by simp
    simp only [Recording.push, if_pos hlt]
    exact hn.push hle hbefore hnot hinside

/-- What a call keeps, when the clock is not zero and has not gone back. -/
private theorem step_nested {s' : Recording} {c : Call} (h : s.Matches) (hn : s.timeline.Nested last)
    (hclock : ∀ now, c.now? = some now → last ≤ now ∧ now ≠ Instant.zero) (hs : s.step c = some s') :
    s'.Matches ∧ s'.timeline.Nested (c.now?.getD last) := by
  cases c with
  | startSpan id now name =>
    obtain ⟨hle, -⟩ := hclock now rfl
    simp only [step] at hs
    split at hs
    · rename_i handle line hstart
      cases hs
      exact ⟨h.start hn hstart, hn.start hle⟩
    · cases hs
      exact ⟨h, hn.mono hle⟩
  | finishSpan now =>
    obtain ⟨hle, hnow⟩ := hclock now rfl
    simp only [step] at hs
    split at hs
    · rename_i handle rest hopen
      obtain ⟨line, hline, rfl⟩ := Option.map_eq_some_iff.1 hs
      exact ⟨h.finish hn hnow hopen hline, hn.finish hle⟩
    · cases hs
  | addEvent id now event =>
    obtain ⟨hle, -⟩ := hclock now rfl
    cases hs
    refine step_push h hn hle { RawSpan.beginWith id s.line.spanQueue.parentId now event.name .event with
      properties := event.properties } ?_ rfl (le_refl now) (fun _ _ hspan => by cases hspan)
      fun start hstart => ⟨hstart.trans hle, fun x hx => by cases hx⟩
    unfold SpanLine.addEvent SpanQueue.addEvent
    split
    · exact Or.inl rfl
    · split
      · exact Or.inl rfl
      · exact Or.inr rfl
  | addProperties id properties =>
    cases hs
    refine step_push h hn (le_refl last) ((RawSpan.beginWith id s.line.spanQueue.parentId Instant.zero ""
      .properties).extendProperties properties) ?_ rfl trivial (fun _ _ hspan => by cases hspan) fun _ _ => trivial
    unfold SpanLine.addProperties SpanQueue.addProperties
    split
    · exact Or.inl rfl
    · split
      · exact Or.inl rfl
      · exact Or.inr rfl
  | withProperties i properties =>
    obtain ⟨handle, -, hs⟩ := Option.bind_eq_some_iff.1 hs
    obtain ⟨line, hline, rfl⟩ := Option.map_eq_some_iff.1 hs
    refine ⟨?_, hn⟩
    unfold SpanLine.withProperties at hline
    split at hline
    · cases hline
      exact h
    · split at hline
      · obtain ⟨q, hq, rfl⟩ := Option.map_eq_some_iff.1 hline
        unfold SpanQueue.withProperties at hq
        split at hq
        · cases hq
        · rename_i raw hraw
          cases hq
          exact h.set hraw rfl rfl rfl
      · cases hline
        exact h

end

/-- What a run keeps, on a clock that is not zero and never goes back. -/
private theorem run_nested {s s' : Recording} {cs : List Call} {last : Instant} (h : s.Matches)
    (hn : s.timeline.Nested last) (hclock : (last :: cs.filterMap Call.now?).Pairwise (· ≤ ·))
    (hpos : ∀ i ∈ cs.filterMap Call.now?, i ≠ Instant.zero) (hs : Steps.run step s cs = some s') :
    s'.Matches ∧ s'.timeline.Nested ((cs.filterMap Call.now?).getLast?.getD last) := by
  induction cs generalizing s last with
  | nil => cases hs; exact ⟨h, hn⟩
  | cons c cs ih =>
    obtain ⟨s₁, h₁, h₂⟩ := Option.bind_eq_some_iff.1 hs
    cases hc : c.now? with
    | none =>
      simp only [List.filterMap_cons, hc] at hclock hpos ⊢
      obtain ⟨hm, hn₁⟩ := step_nested h hn (fun now hnow => by rw [hc] at hnow; cases hnow) h₁
      rw [hc] at hn₁
      exact ih hm hn₁ hclock hpos h₂
    | some now =>
      simp only [List.filterMap_cons, hc] at hclock hpos ⊢
      rw [List.forall_mem_cons] at hpos
      obtain ⟨hlast, hrest⟩ := List.pairwise_cons.1 hclock
      obtain ⟨hm, hn₁⟩ := step_nested h hn (fun now' hnow => by
        rw [hc] at hnow
        cases hnow
        exact ⟨hlast now (List.mem_cons_self ..), hpos.1⟩) h₁
      rw [hc] at hn₁
      have := ih hm hn₁ hrest hpos.2 h₂
      rw [List.getLast?_cons]
      exact this

end Recording

/-! ### The records -/

/-- `begin_time_unix_ns + duration_ns`, without overflow. -/
def SpanRecord.endTimeUnixNs (r : SpanRecord) : Nat := r.beginTimeUnixNs.toNat + r.durationNs.toNat

/-- The time lies in the interval of the record. -/
def SpanRecord.Covers (r : SpanRecord) (time : UInt64) : Prop :=
  r.beginTimeUnixNs ≤ time ∧ time.toNat ≤ r.endTimeUnixNs

/-- The interval of `r'` lies in that of `r`. -/
def SpanRecord.Encloses (r r' : SpanRecord) : Prop :=
  r.beginTimeUnixNs ≤ r'.beginTimeUnixNs ∧ r'.endTimeUnixNs ≤ r.endTimeUnixNs

/-- The duration is a saturating difference, so the record ends at the later of the two times. -/
theorem record_endTimeUnixNs (anchor : Anchor) (i : Item) (raw : RawSpan) :
    (i.record anchor raw).endTimeUnixNs = max (raw.beginInstant.asUnixNanos anchor).toNat
      ((i.spans.endOf raw).asUnixNanos anchor).toNat := by
  simp only [SpanRecord.endTimeUnixNs, Item.record, saturatingSub]
  split
  · rename_i hle
    rw [UInt64.toNat_sub_of_le _ _ hle]
    have := UInt64.le_iff_toNat_le.1 hle
    omega
  · rename_i hlt
    have := UInt64.lt_iff_toNat_lt.1 (UInt64.not_le.1 hlt)
    simp only [UInt64.toNat_zero]
    omega

/-- The item of the local spans of a recording that is collected at `endTime`. -/
def Recording.item (s : Recording) (endTime : Instant) (traceId : TraceId) (parentId : SpanId) : Item where
  spans := .localSpansInner ⟨s.line.spanQueue.takeQueue, endTime⟩
  traceId := traceId
  parentId := parentId

/-- The position of the local span in which the `i`-th entry has been recorded. -/
def Recording.parent (s : Recording) (i : Nat) : Option Nat := s.timeline.entries[i]?.bind Entry.parent

/-- The queue says of a span what the timeline says. -/
private theorem shape_end {raw : RawSpan} {start : Instant} {finish : Option Instant}
    (h : raw.shape = .span start finish) (ls : LocalSpansInner) :
    raw.rawKind = .span ∧ raw.beginInstant = start ∧
      (SpanSet.localSpansInner ls).endOf raw = finish.getD ls.endTime := by
  unfold RawSpan.shape at h
  split at h
  · rename_i hkind
    obtain ⟨hstart, hfinish⟩ := Shape.span.inj h
    refine ⟨hkind, hstart, ?_⟩
    rw [← hfinish]
    by_cases hz : raw.endInstant = Instant.zero <;> simp [SpanSet.endOf, hz]
  · cases h
  · cases h

private theorem shape_of_span {raw : RawSpan} (h : raw.rawKind = .span) :
    ∃ finish, raw.shape = .span raw.beginInstant finish := by
  simp [RawSpan.shape, h]

private theorem shape_of_event {raw : RawSpan} (h : raw.rawKind = .event) : raw.shape = .point raw.beginInstant := by
  simp [RawSpan.shape, h]

section

variable {s : Recording} {last endTime : Instant} {anchor : Anchor}

private theorem Recording.Matches.shape_eq (h : s.Matches) {i : Nat} {e : Entry Instant} {raw : RawSpan}
    (he : s.timeline.entries[i]? = some e) (hraw : s.queue[i]? = some raw) : e.shape = raw.shape := by
  have hi := congrArg (fun l => l[i]?) h.shapes
  simpa only [List.getElem?_map, he, hraw, Option.map_some, Option.some.injEq] using hi

/-- The record of a local span begins where the span begins, and ends where the span ends. -/
private theorem record_interval (hm : s.Matches) (hn : s.timeline.Nested last) (hle : last ≤ endTime)
    (hanchor : ∀ a b : Instant, a ≤ b → anchor a ≤ anchor b) (traceId : TraceId) (parentId : SpanId) {i : Nat}
    {parent : Option Nat} {start : Instant} {finish : Option Instant} {raw : RawSpan}
    (hentry : s.timeline.entries[i]? = some ⟨parent, .span start finish⟩) (hraw : s.queue[i]? = some raw) :
    raw.rawKind = .span ∧
      ((s.item endTime traceId parentId).record anchor raw).beginTimeUnixNs = anchor start ∧
      ((s.item endTime traceId parentId).record anchor raw).endTimeUnixNs = (anchor (finish.getD endTime)).toNat := by
  obtain ⟨hkind, hbegin, hend⟩ := shape_end (hm.shape_eq hentry hraw).symm ⟨s.line.spanQueue.takeQueue, endTime⟩
  refine ⟨hkind, by rw [← hbegin]; rfl, ?_⟩
  rw [record_endTimeUnixNs, hbegin]
  change max (anchor start).toNat (anchor ((SpanSet.localSpansInner _).endOf raw)).toNat = _
  rw [hend]
  exact max_eq_right (UInt64.le_iff_toNat_le.1 (hanchor _ _ (hn.start_le_finish hle hentry)))

/-- By positions: what has been recorded in a local span lies in the interval of its record. -/
private theorem parent_encloses (hm : s.Matches) (hn : s.timeline.Nested last) (hle : last ≤ endTime)
    (hanchor : ∀ a b : Instant, a ≤ b → anchor a ≤ anchor b) (traceId : TraceId) (parentId : SpanId) {i p : Nat}
    {raw : RawSpan} (hraw : s.queue[i]? = some raw) (hp : s.parent i = some p) :
    ∃ rawp, s.queue[p]? = some rawp ∧ rawp.rawKind = .span ∧ raw.parentId = rawp.id ∧
      (raw.rawKind = .span → ((s.item endTime traceId parentId).record anchor rawp).Encloses
        ((s.item endTime traceId parentId).record anchor raw)) ∧
      (raw.rawKind = .event → ((s.item endTime traceId parentId).record anchor rawp).Covers
        (anchor raw.beginInstant)) := by
  obtain ⟨e, he, hep⟩ := Option.bind_eq_some_iff.1 hp
  obtain ⟨parent, start, finish, hspan, hwithin⟩ := hn.within hle he hep
  have hlt : p < s.queue.length := by
    rw [← hm.length_eq]
    exact (List.getElem?_eq_some_iff.1 hspan).1
  have hrawp : s.queue[p]? = some s.queue[p] := List.getElem?_eq_getElem hlt
  obtain ⟨hkind, hbegin, hend⟩ := record_interval hm hn hle hanchor traceId parentId hspan hrawp
  refine ⟨_, hrawp, hkind, ?_, ?_, ?_⟩
  · have hparents := congrArg (fun l => l[i]?) hm.parents
    simp only [List.getElem?_map, he, hraw, Option.map_some, Option.some.injEq, hep] at hparents
    simp [← hparents, Recording.idAt, hrawp]
  · intro hspanKind
    obtain ⟨finish', hshape⟩ := shape_of_span hspanKind
    rw [hm.shape_eq he hraw, hshape] at hwithin
    obtain ⟨q, shape⟩ := e
    cases (hm.shape_eq he hraw).trans hshape
    obtain ⟨-, hbegin', hend'⟩ := record_interval hm hn hle hanchor traceId parentId he hraw
    unfold SpanRecord.Encloses
    rw [hbegin, hbegin', hend, hend']
    exact ⟨hanchor _ _ hwithin.1, UInt64.le_iff_toNat_le.1 (hanchor _ _ hwithin.2)⟩
  · intro heventKind
    rw [hm.shape_eq he hraw, shape_of_event heventKind] at hwithin
    unfold SpanRecord.Covers
    rw [hbegin, hend]
    exact ⟨hanchor _ _ hwithin.1, UInt64.le_iff_toNat_le.1 (hanchor _ _ hwithin.2)⟩

/-- By ids: an entry that names an entry of the queue as its parent has been recorded in it. -/
private theorem parent_of_id (hm : s.Matches) (hids : (s.queue.map RawSpan.id).Nodup) {i p : Nat}
    {raw rawp : RawSpan} (hraw : s.queue[i]? = some raw) (hrawp : s.queue[p]? = some rawp)
    (hid : raw.parentId = rawp.id) (hne : raw.parentId ≠ default) : s.parent i = some p := by
  have hlt : i < s.timeline.entries.length := by
    rw [hm.length_eq]
    exact (List.getElem?_eq_some_iff.1 hraw).1
  have he : s.timeline.entries[i]? = some s.timeline.entries[i] := List.getElem?_eq_getElem hlt
  have hparents := congrArg (fun l => l[i]?) hm.parents
  simp only [List.getElem?_map, he, hraw, Option.map_some, Option.some.injEq] at hparents
  have hparent : s.parent i = s.timeline.entries[i].parent := by
    simp [Recording.parent, he]
  rw [hparent]
  cases hq : s.timeline.entries[i].parent with
  | none => exact absurd (by rw [← hparents, hq]; rfl) hne
  | some q =>
    rw [hq] at hparents
    cases hrawq : s.queue[q]? with
    | none => exact absurd (by rw [← hparents]; simp [Recording.idAt, hrawq]) hne
    | some rawq =>
      have hsame : rawq.id = rawp.id := by
        rw [← hid, ← hparents]
        simp [Recording.idAt, hrawq]
      rw [SpanQueue.eq_of_id_eq hids hrawq hrawp hsame]

private theorem head_of_mem {traceId : TraceId} {parentId : SpanId} {r : SpanRecord}
    (h : r ∈ (s.item endTime traceId parentId).heads anchor) :
    ∃ raw, raw ∈ s.queue ∧ raw.rawKind = .span ∧ r = (s.item endTime traceId parentId).record anchor raw := by
  obtain ⟨raw, hraw, rfl⟩ := List.mem_map.1 h
  rw [List.mem_filter, decide_eq_true_iff] at hraw
  exact ⟨raw, hraw.1, hraw.2, rfl⟩

/-- The interval of every record lies in the interval of its parent among the records, and the events waiting for a
record lie in its interval. -/
def Nests (records : List SpanRecord) (waiting : Waiting) : Prop :=
  (∀ r ∈ records, ∀ r' ∈ records, r'.parentId = r.spanId → r.Encloses r') ∧
    ∀ r ∈ records, ∀ event, DanglingItem.event event ∈ waiting r.spanId → r.Covers event.timestampUnixNs

/-- When the ids are unique, the intervals nest by ids as they do by positions. -/
private theorem nests_item (hm : s.Matches) (hn : s.timeline.Nested last) (hle : last ≤ endTime)
    (hanchor : ∀ a b : Instant, a ≤ b → anchor a ≤ anchor b) (traceId : TraceId) {parentId : SpanId}
    (hids : (s.queue.map RawSpan.id).Nodup) (hroot : parentId ∉ s.queue.map RawSpan.id) :
    Nests ((s.item endTime traceId parentId).heads anchor)
      (keyed ((s.item endTime traceId parentId).attachments anchor)) := by
  -- an entry whose parent id is that of an entry of the queue is no root
  have hpos : ∀ raw ∈ s.queue, ∀ rawp ∈ s.queue, (s.item endTime traceId parentId).parentOf raw = rawp.id →
      ∃ i p, s.queue[i]? = some raw ∧ s.queue[p]? = some rawp ∧ s.parent i = some p := by
    intro raw hraw rawp hrawp hid
    obtain ⟨i, hi⟩ := List.mem_iff_getElem?.1 hraw
    obtain ⟨p, hp⟩ := List.mem_iff_getElem?.1 hrawp
    change (if raw.parentId = default then parentId else raw.parentId) = rawp.id at hid
    split at hid
    · exact absurd (hid ▸ List.mem_map_of_mem hrawp) hroot
    · rename_i hne
      exact ⟨i, p, hi, hp, parent_of_id hm hids hi hp hid hne⟩
  refine ⟨fun r hr r' hr' hparent => ?_, fun r hr event hevent => ?_⟩
  · obtain ⟨rawp, hrawp, -, rfl⟩ := head_of_mem hr
    obtain ⟨raw, hraw, hkind, rfl⟩ := head_of_mem hr'
    obtain ⟨i, p, hi, hp, hip⟩ := hpos raw hraw rawp hrawp hparent
    obtain ⟨rawp', hp', -, -, hencloses, -⟩ := parent_encloses hm hn hle hanchor traceId parentId hi hip
    rw [hp] at hp'
    cases hp'
    exact hencloses hkind
  · obtain ⟨rawp, hrawp, -, rfl⟩ := head_of_mem hr
    rw [mem_keyed] at hevent
    obtain ⟨raw, hraw, heq⟩ := List.mem_map.1 hevent
    obtain ⟨hparent, hdangling⟩ := Prod.mk.inj heq
    obtain ⟨i, p, hi, hp, hip⟩ := hpos raw (List.mem_of_mem_filter hraw) rawp hrawp hparent
    obtain ⟨rawp', hp', -, -, -, hcovers⟩ := parent_encloses hm hn hle hanchor traceId parentId hi hip
    rw [hp] at hp'
    cases hp'
    unfold RawSpan.dangling at hdangling
    split at hdangling
    · rename_i hkind
      cases hdangling
      exact hcovers hkind
    · cases hdangling

private theorem mount_encloses {r r' : SpanRecord} {ds ds' : List DanglingItem} (h : r.Encloses r') :
    (r.mount ds).Encloses (r'.mount ds') := by
  rw [mount_eq, mount_eq]
  exact h

/-- Mounting keeps the intervals, and mounts on a record what waits for its id. -/
private theorem nests_mountAll {records : List SpanRecord} {waiting : Waiting} (h : Nests records waiting)
    (hbare : ∀ r ∈ records, r.events = []) :
    (∀ r ∈ mountAll waiting records, ∀ r' ∈ mountAll waiting records, r'.parentId = r.spanId → r.Encloses r') ∧
      ∀ r ∈ mountAll waiting records, ∀ event ∈ r.events, r.Covers event.timestampUnixNs := by
  refine ⟨fun r hr r' hr' hparent => ?_, fun r hr event hevent => ?_⟩
  · obtain ⟨r₀, hr₀, ds, rfl, -⟩ := mem_mountAll hr
    obtain ⟨r₀', hr₀', ds', rfl, -⟩ := mem_mountAll hr'
    rw [mount_eq, mount_eq] at hparent
    exact mount_encloses (h.1 r₀ hr₀ r₀' hr₀' hparent)
  · obtain ⟨r₀, hr₀, ds, rfl, hds⟩ := mem_mountAll hr
    rw [mount_eq, hbare r₀ hr₀, List.nil_append] at hevent
    obtain ⟨d, hd, hevent⟩ := List.mem_flatMap.1 hevent
    cases d with
    | event event' =>
      cases List.mem_singleton.1 hevent
      have hcovers := h.2 r₀ hr₀ event (hds _ hd)
      rw [mount_eq]
      exact hcovers
    | properties properties => cases hevent

end

/-- Span records that are made of a run on one span line, on a clock that is not zero and never goes back, collected
at any moment.  Ids need to be unique only where a record is found by an id. -/
theorem intervals_nest {capacity epoch : Nat} {collectToken : Option CollectToken} {cs : List Recording.Call}
    {s : Recording} {endTime : Instant} {anchor : Anchor}
    (hrun : Steps.run Recording.step (Recording.init capacity epoch collectToken) cs = some s)
    (hclock : (cs.filterMap Recording.Call.now? ++ [endTime]).Pairwise (· ≤ ·))
    (hpos : ∀ i ∈ cs.filterMap Recording.Call.now? ++ [endTime], i ≠ Instant.zero)
    (hanchor : ∀ a b : Instant, a ≤ b → anchor a ≤ anchor b) (traceId : TraceId) (parentId : SpanId) :
    (∀ records danglings, ∃ new added,
      (amendLocalSpan ⟨s.line.spanQueue.takeQueue, endTime⟩ traceId parentId records danglings anchor).1 =
        records ++ new ∧
      (∀ x, (amendLocalSpan ⟨s.line.spanQueue.takeQueue, endTime⟩ traceId parentId records danglings
        anchor).2.waiting x = danglings.waiting x ++ added x) ∧
      (∀ r ∈ new, r.endTimeUnixNs < 2 ^ 64 ∧ ∃ raw ∈ s.queue, r.spanId = raw.id ∧
        r.beginTimeUnixNs = anchor raw.beginInstant ∧
        r.endTimeUnixNs = max (anchor raw.beginInstant).toNat
          (anchor (if raw.endInstant = Instant.zero then endTime else raw.endInstant)).toNat) ∧
      ((s.queue.map RawSpan.id).Nodup → parentId ∉ s.queue.map RawSpan.id → Nests new added)) ∧
    (∀ (i p : Nat) (raw : RawSpan), s.queue[i]? = some raw → s.parent i = some p →
      ∃ rawp, s.queue[p]? = some rawp ∧ rawp.rawKind = .span ∧ raw.parentId = rawp.id ∧
        (raw.rawKind = .span → ((s.item endTime traceId parentId).record anchor rawp).Encloses
          ((s.item endTime traceId parentId).record anchor raw)) ∧
        (raw.rawKind = .event → ((s.item endTime traceId parentId).record anchor rawp).Covers
          (anchor raw.beginInstant))) ∧
    ((s.queue.map RawSpan.id).Nodup → parentId ∉ s.queue.map RawSpan.id →
      let records := LocalSpansInner.toSpanRecords ⟨s.line.spanQueue.takeQueue, endTime⟩ traceId parentId anchor
      (∀ r ∈ records, ∀ r' ∈ records, r'.parentId = r.spanId → r.Encloses r') ∧
        ∀ r ∈ records, ∀ event ∈ r.events, r.Covers event.timestampUnixNs) := by
  obtain ⟨hreadings, -, hlast⟩ := List.pairwise_append.1 hclock
  have hfirst : (Instant.zero :: cs.filterMap Recording.Call.now?).Pairwise (· ≤ ·) :=
    List.pairwise_cons.2 ⟨fun i _ => Nat.zero_le _, hreadings⟩
  obtain ⟨hm, hn⟩ := Recording.run_nested (Recording.matches_init capacity epoch collectToken)
    (Timeline.nested_empty Instant.zero) hfirst (fun i hi => hpos i (List.mem_append_left _ hi)) hrun
  have hle : (cs.filterMap Recording.Call.now?).getLast?.getD Instant.zero ≤ endTime := by
    cases hgetLast : (cs.filterMap Recording.Call.now?).getLast? with
    | none => exact Nat.zero_le _
    | some i => exact hlast i (List.mem_of_getLast? hgetLast) endTime (List.mem_singleton_self _)
  have hspec := amendCollection_spec anchor
    (.owned (.localSpansInner ⟨s.line.spanQueue.takeQueue, endTime⟩) traceId parentId)
  refine ⟨fun records danglings => ⟨(s.item endTime traceId parentId).heads anchor,
      keyed ((s.item endTime traceId parentId).attachments anchor), (hspec records danglings).1,
      (hspec records danglings).2, ?_, nests_item hm hn hle hanchor traceId⟩,
    fun i p raw => parent_encloses hm hn hle hanchor traceId parentId, fun hids hroot => ?_⟩
  · intro r hr
    obtain ⟨raw, hraw, -, rfl⟩ := head_of_mem hr
    have hend := record_endTimeUnixNs anchor (s.item endTime traceId parentId) raw
    refine ⟨?_, raw, hraw, rfl, rfl, hend⟩
    rw [hend]
    exact max_lt (UInt64.toNat_lt _) (UInt64.toNat_lt _)
  · have hnests := nests_item hm hn hle hanchor traceId hids hroot
    obtain ⟨hrecords, hwaiting⟩ := hspec [] HashMap.empty
    have heq : LocalSpansInner.toSpanRecords ⟨s.line.spanQueue.takeQueue, endTime⟩ traceId parentId anchor =
        mountAll (keyed ((s.item endTime traceId parentId).attachments anchor))
          ((s.item endTime traceId parentId).heads anchor) :=
      (mountDanglings_spec _ _).1.trans (congrArg₂ mountAll (funext hwaiting) hrecords)
    intro records
    rw [show records = _ from heq]
    refine nests_mountAll hnests fun r hr => ?_
    obtain ⟨raw, -, -, rfl⟩ := head_of_mem hr
    rfl

/-- An inner local span and two events, while the outer local span stays open. -/
def openOuterCalls : List Recording.Call :=
  [.startSpan ⟨1⟩ ⟨5⟩ "outer", .addEvent ⟨2⟩ ⟨6⟩ ⟨"first", none⟩, .startSpan ⟨3⟩ ⟨7⟩ "inner",
    .addEvent ⟨4⟩ ⟨9⟩ ⟨"second", none⟩, .finishSpan ⟨9⟩]

def openOuter : Option Recording := Steps.run Recording.step (Recording.init 8 0 none) openOuterCalls

theorem intervals_nest_open_outer : ∃ s, openOuter = some s ∧
    let records := LocalSpansInner.toSpanRecords ⟨s.line.spanQueue.takeQueue, ⟨12⟩⟩ ⟨0⟩ ⟨9⟩ Instant.ticks
    (∀ r ∈ records, ∀ r' ∈ records, r'.parentId = r.spanId → r.Encloses r') ∧
      ∀ r ∈ records, ∀ event ∈ r.events, r.Covers event.timestampUnixNs :=
  have hrun : Steps.run Recording.step (Recording.init 8 0 none) openOuterCalls = some (openOuter.get rfl) := rfl
  ⟨openOuter.get rfl, rfl, (intervals_nest hrun (by decide) (by decide) (fun _ _ => UInt64.le_iff_toNat_le.2)
    ⟨0⟩ ⟨9⟩).2.2 (by decide) (by decide)⟩

end Fastrace
