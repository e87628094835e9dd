import Fastrace.RtTrace.Transitions

/-!
# Shards (`rt-trace/src/span_queue.rs`)

`with_span_queue` takes the index of a queue from the id of the thread, and a span keeps the queue it was created with.
So a raw span is pushed to the queue of the thread that has created it, whichever thread drops it, and lies in no other.
-/

namespace RtTrace

variable {T : Type}

/-- The index of the queue that the spans of the thread go to. -/
def RawSpan.shard (span : RawSpan) (shardNum : Nat) : Nat := span.threadId.toNat % shardNum

/-- The spans of a thread are pushed to its own queue, whichever thread drops them. -/
structure Sharded (w : World T) : Prop where
  handle : ∀ v span raw, w.spans v = some span → span.inner = some raw →
    span.spanQueueHandle = raw.shard w.shardNum
  pushing : ∀ u i span, w.phase u = .pushing i span → span.shard w.shardNum = i
  home : ∀ (i : Nat) (queue : SpanQueue), w.queues[i]? = some queue → ∀ span ∈ queue.spans, span.shard w.shardNum = i

section Run

variable {info : T → ThreadInfo} {w w' : World T} {t : T}

private theorem sharded_init (shardNum : Nat) (hpos : 0 < shardNum) : Sharded (World.init shardNum hpos : World T) := by
  refine ⟨fun v span raw hspan => (by cases hspan), fun u i span hu => (by cases hu), ?_⟩
  intro i queue hqueue span hspan
  rw [List.eq_of_mem_replicate (List.mem_of_getElem? hqueue)] at hspan
  cases hspan

/-- What is new after a step belongs where it is. -/
private theorem sharded_of (h : Sharded w) (hnum : w'.shardNum = w.shardNum)
    (hspans : ∀ v span, w'.spans v = some span → w.spans v = some span ∨
      ∀ raw, span.inner = some raw → span.spanQueueHandle = raw.shard w.shardNum)
    (hphase : ∀ u i span, w'.phase u = .pushing i span → w.phase u = .pushing i span ∨ span.shard w.shardNum = i)
    (hqueues : ∀ (i : Nat) (queue : SpanQueue), w'.queues[i]? = some queue → ∀ span ∈ queue.spans,
      (∃ queue', w.queues[i]? = some queue' ∧ span ∈ queue'.spans) ∨ span.shard w.shardNum = i) : Sharded w' := by
  constructor
  case handle =>
    intro v span raw hspan hraw
    rw [hnum]
    rcases hspans v span hspan with hold | hnew
    · exact h.handle v span raw hold hraw
    · exact hnew raw hraw
  case pushing =>
    intro u i span hu
    rw [hnum]
    rcases hphase u i span hu with hold | hnew
    · exact h.pushing u i span hold
    · exact hnew
  case home =>
    intro i queue hqueue span hspan
    rw [hnum]
    rcases hqueues i queue hqueue span hspan with ⟨queue', hold, hspan'⟩ | hnew
    · exact h.home i queue' hold span hspan'
    · exact hnew

/-- A queue that is replaced holds what it held and what is pushed to it. -/
private theorem home_set {i : Nat} {queue queue' : SpanQueue} (hqueue : w.queues[i]? = some queue)
    (hqueue' : ∀ span ∈ queue'.spans, span ∈ queue.spans ∨ span.shard w.shardNum = i) :
    ∀ (j : Nat) (q : SpanQueue), (w.queues.set i queue')[j]? = some q → ∀ span ∈ q.spans,
      (∃ q', w.queues[j]? = some q' ∧ span ∈ q'.spans) ∨ span.shard w.shardNum = j := by
  intro j q hq span hspan
  rw [List.getElem?_set] at hq
  split at hq
  · rename_i hij
    subst hij
    split at hq
    · cases hq
      rcases hqueue' span hspan with hold | hnew
      · exact Or.inl ⟨queue, hqueue, hold⟩
      · exact Or.inr hnew
    · cases hq
  · exact Or.inl ⟨q, hq, hspan⟩

private theorem home_push (h : Sharded w) {i : Nat} {queue : SpanQueue} {span : RawSpan} {u : T}
    (hphase : w.phase u = .pushing i span) :
    ∀ raw ∈ (queue.push span).1.spans, raw ∈ queue.spans ∨ raw.shard w.shardNum = i := by
  intro raw hraw
  rcases queue.push_cases span with ⟨hpush, -⟩ | ⟨hpush, -⟩ <;> rw [hpush] at hraw
  · cases hraw
  · rcases List.mem_append.1 hraw with hold | hnew
    · exact Or.inl hold
    · rw [List.mem_singleton.1 hnew]
      exact Or.inr (h.pushing u i span hphase)

private theorem update_none_eq_some {spans : Var → Option Span} {v v' : Var} {span : Span}
    (h : Function.update spans v none v' = some span) : spans v' = some span := by
  rw [Function.update_apply] at h
  split at h
  · cases h
  · exact h

variable [DecidableEq T]

/-- A step that takes the thread to a phase without a push. -/
private theorem sharded_phase (h : Sharded w) {p : Phase} (hp : p.toPush = none) (hnum : w'.shardNum = w.shardNum)
    (hspans : w'.spans = w.spans) (hphase : w'.phase = Function.update w.phase t p)
    (hqueues : ∀ (i : Nat) (queue : SpanQueue), w'.queues[i]? = some queue → ∀ span ∈ queue.spans,
      (∃ queue', w.queues[i]? = some queue' ∧ span ∈ queue'.spans) ∨ span.shard w.shardNum = i) : Sharded w' := by
  refine sharded_of h hnum (fun v span hspan => Or.inl (hspans ▸ hspan)) (fun u i span hu => ?_) hqueues
  rw [hphase, Function.update_apply] at hu
  split at hu
  · rw [hu] at hp
    cases hp
  · exact Or.inl hu

theorem Sharded.step (h : Sharded w) {op : Op} (hw : w.step info (t, op) = some w') : Sharded w' := by
  have hsame : ∀ (i : Nat) (queue : SpanQueue), w.queues[i]? = some queue → ∀ span ∈ queue.spans,
      (∃ queue', w.queues[i]? = some queue' ∧ span ∈ queue'.spans) ∨ span.shard w.shardNum = i :=
    fun i queue hqueue span hspan => Or.inl ⟨queue, hqueue, hspan⟩
  cases step_transition hw with
  | threadStart | threadExit | start | stop | receive =>
    exact sharded_of h rfl (fun _ _ => Or.inl) (fun _ _ _ => Or.inl) hsame
  | flush | collect | restart | lock | nextReceiver | lastReceiver | endRound | drainNothing | drain | consume
  | endFlush => exact sharded_phase h rfl rfl rfl rfl hsame
  | @span v typ now descriptors =>
    refine sharded_of h rfl (fun v' span hspan => ?_) (fun _ _ _ => Or.inl) hsame
    change Function.update w.spans v _ v' = _ at hspan
    rw [Function.update_apply] at hspan
    split at hspan
    · cases hspan
      refine Or.inr fun raw hraw => ?_
      cases hraw
      rfl
    · exact Or.inl hspan
  | @noopSpan v typ now =>
    refine sharded_of h rfl (fun v' span hspan => ?_) (fun _ _ _ => Or.inl) hsame
    change Function.update w.spans v _ v' = _ at hspan
    rw [Function.update_apply] at hspan
    split at hspan
    · cases hspan
      exact Or.inr fun raw hraw => by cases hraw
    · exact Or.inl hspan
  | @dropSpan v now span raw hfree hspan henabled hraw =>
    refine sharded_of h rfl (fun v' span' hspan' => ?_) (fun u i span' hu => ?_) hsame
    · exact Or.inl (update_none_eq_some hspan')
    · change Function.update w.phase t _ u = _ at hu
      rw [Function.update_apply] at hu
      split at hu
      · cases hu
        exact Or.inr (h.handle v span raw hspan hraw).symm
      · exact Or.inl hu
  | forgetSpan =>
    exact sharded_of h rfl (fun v' span' hspan' => Or.inl (update_none_eq_some hspan')) (fun _ _ _ => Or.inl) hsame
  | push hphase hqueue => exact sharded_phase h rfl rfl rfl rfl (home_set hqueue (home_push h hphase))
  | pushBatch hphase hqueue hpush hsend =>
    have hkeeps := sendCommand_keeps hsend
    refine sharded_phase (p := .idle) h rfl hkeeps.shardNum hkeeps.spans hkeeps.phase ?_
    rw [hkeeps.queues]
    exact home_set hqueue (home_push h hphase)
  | @flushShard order index queue w' hphase hindex hqueue hsend =>
    have hkeeps := sendCommand_keeps hsend
    refine sharded_phase (p := .flushing (index + 1)) h rfl hkeeps.shardNum hkeeps.spans hkeeps.phase ?_
    rw [hkeeps.queues]
    exact home_set hqueue fun span hspan => by cases hspan

private theorem Sharded.act (h : Sharded w) {a : T × PanicOp} (hw : w.act info a = some w') : Sharded w' := by
  obtain ⟨t, a⟩ := a
  obtain ⟨w₁, hstep, rfl⟩ := Option.map_eq_some_iff.1 hw
  have hsharded := h.step hstep
  split
  · exact sharded_phase (p := .idle) hsharded rfl rfl rfl rfl
      fun i queue hqueue span hspan => Or.inl ⟨queue, hqueue, hspan⟩
  · exact hsharded

theorem sharded_of_run {shardNum : Nat} {hpos : 0 < shardNum} {as : List (T × PanicOp)}
    (hrun : Steps.run (World.act info) (World.init shardNum hpos) as = some w) : Sharded w :=
  Steps.run_induction (fun _ _ _ h hw => h.act hw) (sharded_init shardNum hpos) hrun

end Run

end RtTrace
