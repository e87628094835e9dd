import Fastrace.Forests
import Fastrace.SpanQueue
import Fastrace.Steps

/-!
# The forest of a span queue

A span queue used in any way that its handles allow: local spans are finished in any order, and once at most.  A finish
sets the register to the parent of the finished span, so the register can name any ancestor of the span started last,
or no span.  It never names an entry that is no span, and so the links always point backwards (`SpanQueue.Linked`).
With ids that are not zero and not drawn twice, a link names one entry only (`forest_of_run`).
-/

namespace Fastrace

/-- The entry at `i` is the parent of the one at `j`. -/
def SpanQueue.IsParent (q : SpanQueue) (i j : Nat) : Prop :=
  ∃ raw raw', q.spanQueue[i]? = some raw ∧ q.spanQueue[j]? = some raw' ∧ raw'.parentId ≠ default ∧
    raw.id = raw'.parentId

/-! ### The queue and its handles -/

structure QueueRun where
  queue : SpanQueue
  /-- The handles of the spans that are not finished. -/
  handles : List SpanHandle
  /-- The ids of the calls that found the queue full. -/
  refused : List SpanId
deriving DecidableEq, Repr

namespace QueueRun

def init (capacity : Nat) : QueueRun where
  queue := SpanQueue.withCapacity capacity
  handles := []
  refused := []

inductive Call where
  | startSpan (id : SpanId) (now : Instant) (name : String)
  | finishSpan (handle : SpanHandle) (now : Instant)
  | addEvent (id : SpanId) (now : Instant) (event : Event)
  | addProperties (id : SpanId) (properties : Properties)
  | withProperties (handle : SpanHandle) (properties : Properties)
deriving DecidableEq, Repr

/-- The id that `SpanId::next_id()` gives in the call, unless the queue is full. -/
def Call.id? : Call → Option SpanId
  | .startSpan id _ _ => some id
  | .addEvent id _ _ => some id
  | .addProperties id _ => some id
  | _ => none

def Call.handle? : Call → Option SpanHandle
  | .finishSpan handle _ => some handle
  | .withProperties handle _ => some handle
  | _ => none

def drawn (calls : List Call) : List SpanId := calls.filterMap Call.id?

/-- The id, if the queue has no place for an entry. -/
def refuses (s : QueueRun) (id : SpanId) : List SpanId :=
  if s.queue.spanQueue.length ≥ s.queue.capacity then [id] else []

/-- A finish consumes the handle.  A call that panics is no step. -/
def step (s : QueueRun) : Call → Option QueueRun
  | .startSpan id now name =>
    match s.queue.startSpan id now name with
    | some (handle, queue) => some { s with queue := queue, handles := handle :: s.handles }
    | none => some { s with refused := s.refused ++ [id] }
  | .finishSpan handle now =>
    if handle ∈ s.handles then
      (s.queue.finishSpan handle now).map fun queue =>
        { s with queue := queue, handles := s.handles.erase handle }
    else none
  | .addEvent id now event =>
    some { s with queue := s.queue.addEvent id now event, refused := s.refused ++ s.refuses id }
  | .addProperties id properties =>
    some { s with queue := s.queue.addProperties id properties, refused := s.refused ++ s.refuses id }
  | .withProperties handle properties =>
    if handle ∈ s.handles then
      (s.queue.withProperties handle properties).map fun queue => { s with queue := queue }
    else none

/-! ### What a call does -/

/-- A call pushes an entry, is refused, or changes the end or the properties of an entry. -/
inductive Does (s : QueueRun) (call : Call) : QueueRun → Prop where
  | pushes {id : SpanId} {kind : RawKind} {raw : RawSpan} {next : Option SpanId} {handles : List SpanHandle}
      (hid : call.id? = some id) (hlt : s.queue.spanQueue.length < s.queue.capacity)
      (hraw : SpanQueue.Pushed s.queue id kind raw)
      (hnext : next = s.queue.nextParentId ∨ kind = .span ∧ next = some id)
      (hhandles : ∀ handle ∈ handles, handle ∈ s.handles ∨ handle.index = s.queue.spanQueue.length) :
      Does s call { s with
        queue := { s.queue with spanQueue := s.queue.spanQueue ++ [raw], nextParentId := next }
        handles := handles }
  | refused {id : SpanId} (hid : call.id? = some id) : Does s call { s with refused := s.refused ++ [id] }
  | changes {i : Nat} {raw raw' : RawSpan} {next : Option SpanId} {handles : List SpanHandle}
      (hid : call.id? = none) (hraw : s.queue.spanQueue[i]? = some raw) (hsame : SpanQueue.SameEntry raw raw')
      (hnext : next = s.queue.nextParentId ∨ next = (some raw.parentId).filter fun id => id ≠ default)
      (hhandles : ∀ handle ∈ handles, handle ∈ s.handles) :
      Does s call { s with
        queue := { s.queue with spanQueue := s.queue.spanQueue.set i raw', nextParentId := next }
        handles := handles }

section Step

variable {s s' : QueueRun} {call : Call}

/-- An event or properties, pushed or refused. -/
private theorem does_record {id : SpanId} {kind : RawKind} {queue : SpanQueue} (hid : call.id? = some id)
    (h : s.queue.capacity ≤ s.queue.spanQueue.length ∧ queue = s.queue ∨
      s.queue.spanQueue.length < s.queue.capacity ∧ ∃ raw, SpanQueue.Pushed s.queue id kind raw ∧
        queue = { s.queue with spanQueue := s.queue.spanQueue ++ [raw] }) :
    Does s call { s with queue := queue, refused := s.refused ++ s.refuses id } := by
  unfold refuses
  rcases h with ⟨hfull, rfl⟩ | ⟨hlt, raw, hraw, rfl⟩
  · rw [if_pos hfull]
    exact .refused hid
  · rw [if_neg (Nat.not_le_of_lt hlt), List.append_nil]
    exact .pushes hid hlt hraw (Or.inl rfl) fun _ hhandle => Or.inl hhandle

private theorem step_does (hs : s.step call = some s') : Does s call s' := by
  cases call with
  | startSpan id now name =>
    simp only [step] at hs
    split at hs
    · rename_i handle queue hstart
      cases hs
      obtain ⟨rfl, hlt, raw, hraw, rfl⟩ := SpanQueue.startSpan_cases hstart
      refine .pushes rfl hlt hraw (Or.inr ⟨rfl, rfl⟩) fun handle hhandle => ?_
      rcases List.mem_cons.1 hhandle with rfl | hold
      · exact Or.inr rfl
      · exact Or.inl hold
    · cases hs
      exact .refused rfl
  | finishSpan handle now =>
    simp only [step] at hs
    split at hs
    · obtain ⟨queue, hqueue, rfl⟩ := Option.map_eq_some_iff.1 hs
      obtain ⟨raw, raw', hraw, hsame, rfl⟩ := SpanQueue.finishSpan_cases hqueue
      exact .changes rfl hraw hsame (Or.inr rfl) fun _ hhandle => List.mem_of_mem_erase hhandle
    · cases hs
  | addEvent id now event =>
    cases hs
    exact does_record rfl (s.queue.addEvent_cases id now event)
  | addProperties id properties =>
    cases hs
    exact does_record rfl (s.queue.addProperties_cases id properties)
  | withProperties handle properties =>
    simp only [step] at hs
    split at hs
    · obtain ⟨queue, hqueue, rfl⟩ := Option.map_eq_some_iff.1 hs
      obtain ⟨raw, raw', hraw, hsame, rfl⟩ := SpanQueue.withProperties_cases hqueue
      exact .changes rfl hraw hsame (Or.inl rfl) fun _ hhandle => hhandle
    · cases hs

end Step

/-! ### What a run keeps -/

structure Wf (capacity : Nat) (calls : List Call) (s : QueueRun) : Prop where
  linked : s.queue.Linked
  capacity_eq : s.queue.capacity = capacity
  length_le : s.queue.spanQueue.length ≤ capacity
  handles : ∀ handle ∈ s.handles, handle.index < s.queue.spanQueue.length
  /-- An id has been given to an entry or to a call that was refused. -/
  ids : (s.queue.ids ++ s.refused).Perm (drawn calls)

private theorem drawn_snoc (calls : List Call) (call : Call) :
    drawn (calls ++ [call]) = drawn calls ++ call.id?.toList := by
  unfold drawn
  rw [List.filterMap_append, List.filterMap_cons]
  cases call.id? <;> rfl

private theorem wf_init (capacity : Nat) : Wf capacity [] (init capacity) where
  linked := SpanQueue.linked_withCapacity capacity
  capacity_eq := rfl
  length_le := Nat.zero_le _
  handles _ h := by cases h
  ids := List.Perm.nil

theorem Wf.step {capacity : Nat} {calls : List Call} {s s' : QueueRun} {call : Call} (h : Wf capacity calls s)
    (hs : s.step call = some s') : Wf capacity (calls ++ [call]) s' := by
  cases step_does hs with
  | @pushes id kind raw next handles hid hlt hraw hnext hhandles =>
    constructor
    case linked => exact h.linked.push hraw hnext
    case capacity_eq => exact h.capacity_eq
    case length_le =>
      rw [List.length_append, List.length_singleton, ← h.capacity_eq]
      exact hlt
    case handles =>
      intro handle hhandle
      rw [List.length_append, List.length_singleton]
      rcases hhandles handle hhandle with hold | hnew
      · exact Nat.lt_succ_of_lt (h.handles handle hold)
      · omega
    case ids =>
      rw [drawn_snoc, hid, SpanQueue.ids, List.map_append, List.map_singleton, hraw.id_eq, List.append_assoc]
      have hmoved : (s.queue.ids ++ ([id] ++ s.refused)).Perm (s.queue.ids ++ (s.refused ++ [id])) :=
        List.perm_append_comm.append_left _
      rw [← List.append_assoc s.queue.ids s.refused] at hmoved
      exact hmoved.trans (h.ids.append_right _)
  | @refused id hid =>
    refine ⟨h.linked, h.capacity_eq, h.length_le, h.handles, ?_⟩
    rw [drawn_snoc, hid, ← List.append_assoc]
    exact h.ids.append_right _
  | @changes i raw raw' next handles hid hraw hsame hnext hhandles =>
    constructor
    case linked => exact h.linked.set hraw hsame hnext
    case capacity_eq => exact h.capacity_eq
    case length_le =>
      rw [List.length_set]
      exact h.length_le
    case handles =>
      intro handle hhandle
      rw [List.length_set]
      exact h.handles handle (hhandles handle hhandle)
    case ids =>
      rw [drawn_snoc, hid, SpanQueue.ids, SpanQueue.ids_set hraw hsame]
      exact h.ids.trans (List.Perm.of_eq (List.append_nil _).symm)

variable {capacity : Nat} {calls : List Call} {s : QueueRun}

theorem wf_of_run (hrun : Steps.run step (init capacity) calls = some s) : Wf capacity calls s :=
  Steps.history_induction (P := Wf capacity) (wf_init capacity) (fun _ _ _ _ _ h hs => h.step hs) hrun

/-- In every run only a handle that is not live is in the way of a call: no index is out of bounds. -/
theorem step_isSome_iff (hrun : Steps.run step (init capacity) calls = some s) (call : Call) :
    (s.step call).isSome = true ↔ ∀ handle, call.handle? = some handle → handle ∈ s.handles := by
  have hwf := wf_of_run hrun
  have hindex : ∀ handle ∈ s.handles, ∃ raw, s.queue.spanQueue[handle.index]? = some raw := fun handle hlive =>
    ⟨_, List.getElem?_eq_getElem (hwf.handles handle hlive)⟩
  cases call with
  | startSpan id now name =>
    simp only [step, Call.handle?]
    split <;> simp
  | finishSpan handle now =>
    by_cases hlive : handle ∈ s.handles
    · obtain ⟨raw, hraw⟩ := hindex handle hlive
      simp [step, Call.handle?, hlive, SpanQueue.finishSpan, hraw]
    · simp [step, Call.handle?, hlive]
  | addEvent id now event => simp [step, Call.handle?]
  | addProperties id properties => simp [step, Call.handle?]
  | withProperties handle properties =>
    by_cases hlive : handle ∈ s.handles
    · obtain ⟨raw, hraw⟩ := hindex handle hlive
      simp [step, Call.handle?, hlive, SpanQueue.withProperties, hraw]
    · simp [step, Call.handle?, hlive]

/-! ### The forest -/

/-- The links of the queue, which is no longer than `capacity`. -/
structure FormsForest (capacity : Nat) (s : QueueRun) : Prop where
  links : ∀ i raw, s.queue.spanQueue[i]? = some raw →
    raw.parentId = default ∨ ∃ j < i, SpanQueue.IsSpan s.queue.spanQueue j raw.parentId
  /-- No event, no properties and no later entry has the id of a parent. -/
  only : ∀ {i j : Nat} {raw raw' : RawSpan}, s.queue.spanQueue[i]? = some raw → s.queue.spanQueue[j]? = some raw' →
    raw'.parentId = raw.id → i < j ∧ raw.rawKind = .span
  refused : ∀ raw ∈ s.queue.spanQueue, raw.parentId ∉ s.refused
  register : ∀ x, s.queue.nextParentId = some x → ∃ i, SpanQueue.IsSpan s.queue.spanQueue i x
  length_le : s.queue.spanQueue.length ≤ capacity
  forest : Forests.IsForest s.queue.IsParent

/-- In every run with ids that are not zero and not drawn twice, in whatever order the spans are finished, the links
form a forest. -/
theorem forest_of_run (hnodup : (drawn calls).Nodup) (hnonzero : default ∉ drawn calls)
    (hrun : Steps.run step (init capacity) calls = some s) : FormsForest capacity s := by
  have hwf := wf_of_run hrun
  have hids := hwf.ids.nodup_iff.2 hnodup
  have hqueue : (s.queue.spanQueue.map (·.id)).Nodup := hids.of_append_left
  have hdrawn : ∀ {i : Nat} {raw : RawSpan}, s.queue.spanQueue[i]? = some raw → raw.id ∈ s.queue.ids := fun hi =>
    List.mem_map_of_mem (List.mem_of_getElem? hi)
  have hentry : ∀ {i : Nat} {raw : RawSpan}, s.queue.spanQueue[i]? = some raw → raw.id ≠ default := by
    rintro i raw hi hid
    exact hnonzero (hwf.ids.subset (List.mem_append_left _ (hid ▸ hdrawn hi)))
  constructor
  case links => exact hwf.linked.back
  case only =>
    intro i j raw raw' hi hj hparent
    exact hwf.linked.back.parent hqueue hi hj (hentry hi) hparent
  case refused =>
    intro raw hraw hrefused
    obtain ⟨i, hi⟩ := List.mem_iff_getElem?.1 hraw
    rcases hwf.linked.back i raw hi with hdefault | ⟨j, -, parent, hj, hid, -⟩
    · exact hnonzero (hwf.ids.subset (List.mem_append_right _ (hdefault ▸ hrefused)))
    · exact (List.disjoint_of_nodup_append hids) (hdrawn hj) (hid.symm ▸ hrefused)
  case register => exact hwf.linked.register
  case length_le => exact hwf.length_le
  case forest =>
    refine Forests.IsForest.of_rank id ?_ ?_
    · rintro i i' j ⟨raw, child, hi, hj, -, hid⟩ ⟨raw', child', hi', hj', -, hid'⟩
      rw [hj] at hj'
      cases hj'
      exact SpanQueue.eq_of_id_eq hqueue hi hi' (hid.trans hid'.symm)
    · rintro i j ⟨raw, child, hi, hj, -, hid⟩
      exact (hwf.linked.back.parent hqueue hi hj (hentry hi) hid.symm).1

/-- The outer span is finished before the inner one, and the last call is refused. -/
def outOfOrder : List Call := [
  .startSpan ⟨1⟩ ⟨1⟩ "outer", .startSpan ⟨2⟩ ⟨2⟩ "inner", .finishSpan ⟨0⟩ ⟨3⟩, .startSpan ⟨3⟩ ⟨4⟩ "next",
  .finishSpan ⟨1⟩ ⟨5⟩, .addEvent ⟨4⟩ ⟨6⟩ ⟨"event", none⟩, .startSpan ⟨5⟩ ⟨7⟩ "refused"]

theorem forest_out_of_order :
    FormsForest 4 ((Steps.run step (init 4) outOfOrder).getD (init 4)) :=
  have hrun : Steps.run step (init 4) outOfOrder = some ((Steps.run step (init 4) outOfOrder).getD (init 4)) :=
    Steps.run_eq_getD (by decide)
  forest_of_run (by decide) (by decide) hrun

end QueueRun

end Fastrace
