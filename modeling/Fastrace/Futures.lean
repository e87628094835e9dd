import Fastrace.Collector
import Fastrace.Span

/-!
# Instrumented futures, streams and sinks (`future.rs`, `fastrace-futures/src/lib.rs`)

`InSpan` sets its span as the local parent of the polling thread while it polls the wrapped value, and drops the span
once the wrapped value has finished.  Its methods share one body (`InSpan.poll`); they differ in what counts as
finished.  The wrapped value is any function of the stack it finds: it returns a result, the stack it leaves and the
commands it has sent.  A stack may change between two calls, and the next call may come from another thread, so every
call has a stack of its own.

The guard lives to the end of the method, but the span is dropped before: on the finishing call the commit of a root
precedes the submission of what has been recorded during that call (`submits_before_commit_iff`).
-/

namespace Fastrace

inductive Poll (α : Type) where
  | pending
  | ready (value : α)
deriving DecidableEq, Repr

def Poll.isReady {α : Type} : Poll α → Bool
  | .pending => false
  | .ready _ => true

/-- A stream that is ready without an item has no more items. -/
def Poll.isExhausted {α : Type} : Poll (Option α) → Bool
  | .ready none => true
  | _ => false

structure Polled (ρ : Type) where
  result : ρ
  stack : LocalSpanStack
  sent : List CollectCommand

def Polled.map {ρ ρ' : Type} (f : ρ → ρ') (res : Polled ρ) : Polled ρ' := ⟨f res.result, res.stack, res.sent⟩

/-- A poll of the wrapped value. -/
abbrev Inner (ρ : Type) := LocalSpanStack → Polled ρ

/-- Who has sent a command: the wrapped value, the drop of the span or the drop of the guard. -/
inductive Source where
  | inner
  | span
  | guard
deriving DecidableEq, Repr

abbrev Sent := List (Source × CollectCommand)

def Sent.of (source : Source) (cmds : List CollectCommand) : Sent := cmds.map fun cmd => (source, cmd)

/-! ### The adapter -/

structure Outcome (ρ : Type) where
  result : ρ
  span : Option Span
  stack : LocalSpanStack
  sent : Sent

namespace InSpan

/-- `this.span.as_ref().map(|s| s.set_local_parent())`. -/
def attach (span : Option Span) (stack : LocalSpanStack) : Option LocalParentGuard × LocalSpanStack :=
  match span with
  | some s => let out := s.attachIntoStack stack; (some out.1, out.2)
  | none => (none, stack)

/-- The guard is dropped at the end of the method. -/
def detach (guard : Option LocalParentGuard) (stack : LocalSpanStack) (now : Instant) :
    List CollectCommand × LocalSpanStack :=
  match guard with
  | some g => g.drop stack now
  | none => ([], stack)

/-- The common body of the methods: the span is taken and dropped when the result is `finished`. -/
def poll {ρ : Type} (finished : ρ → Bool) (span : Option Span) (stack : LocalSpanStack) (inner : Inner ρ)
    (spanEnd guardEnd : Instant) : Outcome ρ :=
  let attached := attach span stack
  let res := inner attached.2
  let taken := if finished res.result then span.toList.flatMap fun s => s.drop spanEnd else []
  let detached := detach attached.1 res.stack guardEnd
  { result := res.result
    span := if finished res.result then none else span
    stack := detached.2
    sent := Sent.of .inner res.sent ++ Sent.of .span taken ++ Sent.of .guard detached.1 }

variable {α ε : Type}

/-- `Future::poll`. -/
def pollFuture : Option Span → LocalSpanStack → Inner (Poll α) → Instant → Instant → Outcome (Poll α) :=
  poll Poll.isReady

/-- `Stream::poll_next`. -/
def pollNext : Option Span → LocalSpanStack → Inner (Poll (Option α)) → Instant → Instant →
    Outcome (Poll (Option α)) :=
  poll Poll.isExhausted

/-- `Sink::poll_ready`. -/
def pollReady : Option Span → LocalSpanStack → Inner (Poll (Except ε Unit)) → Instant → Instant →
    Outcome (Poll (Except ε Unit)) :=
  poll fun _ => false

/-- `Sink::start_send`. -/
def startSend : Option Span → LocalSpanStack → Inner (Except ε Unit) → Instant → Instant → Outcome (Except ε Unit) :=
  poll fun _ => false

/-- `Sink::poll_flush`. -/
def pollFlush : Option Span → LocalSpanStack → Inner (Poll (Except ε Unit)) → Instant → Instant →
    Outcome (Poll (Except ε Unit)) :=
  poll fun _ => false

/-- `Sink::poll_close`. -/
def pollClose : Option Span → LocalSpanStack → Inner (Poll (Except ε Unit)) → Instant → Instant →
    Outcome (Poll (Except ε Unit)) :=
  poll Poll.isReady

end InSpan

/-! ### The calls of an adapter -/

inductive Method (α ε : Type) where
  | pollFuture (inner : Inner (Poll α))
  | pollNext (inner : Inner (Poll (Option α)))
  | pollReady (inner : Inner (Poll (Except ε Unit)))
  | startSend (inner : Inner (Except ε Unit))
  | pollFlush (inner : Inner (Poll (Except ε Unit)))
  | pollClose (inner : Inner (Poll (Except ε Unit)))
  /-- The adapter is dropped: the wrapped value, which sends `cmds`, and then the span. -/
  | drop (cmds : List CollectCommand)

/-- A call, with the stack of the calling thread and the clock readings of the two drops. -/
structure Call (α ε : Type) where
  method : Method α ε
  stack : LocalSpanStack
  spanEnd : Instant
  guardEnd : Instant

variable {α ε : Type}

/-- The span that a call leaves in the adapter, and what it sends. -/
def Call.run (span : Option Span) (call : Call α ε) : Option Span × Sent :=
  let forget {ρ : Type} (out : Outcome ρ) : Option Span × Sent := (out.span, out.sent)
  match call.method with
  | .pollFuture inner => forget (InSpan.pollFuture span call.stack inner call.spanEnd call.guardEnd)
  | .pollNext inner => forget (InSpan.pollNext span call.stack inner call.spanEnd call.guardEnd)
  | .pollReady inner => forget (InSpan.pollReady span call.stack inner call.spanEnd call.guardEnd)
  | .startSend inner => forget (InSpan.startSend span call.stack inner call.spanEnd call.guardEnd)
  | .pollFlush inner => forget (InSpan.pollFlush span call.stack inner call.spanEnd call.guardEnd)
  | .pollClose inner => forget (InSpan.pollClose span call.stack inner call.spanEnd call.guardEnd)
  | .drop cmds => (none, Sent.of .inner cmds ++ Sent.of .span (span.toList.flatMap fun s => s.drop call.spanEnd))

/-- What the calls of an adapter with the span `span` send, in order. -/
def sentBy (span : Option Span) : List (Call α ε) → Sent
  | [] => []
  | call :: calls => (call.run span).2 ++ sentBy (call.run span).1 calls

/-- Every submission of a guard precedes the commit of `c`. -/
def SubmitsBeforeCommit (c : CollectId) (sent : Sent) : Prop :=
  ∀ before after, sent = before ++ (.span, .commitCollect c) :: after → ∀ cmd, (Source.guard, cmd) ∉ after

/-! ### What a call does -/

/-- The poll of the wrapped value, which says whether it has finished; there is none when the adapter is dropped. -/
def Method.polls : Method α ε → Option (Inner Bool)
  | .pollFuture inner => some fun stack => (inner stack).map Poll.isReady
  | .pollNext inner => some fun stack => (inner stack).map Poll.isExhausted
  | .pollReady inner => some fun stack => (inner stack).map fun _ => false
  | .startSend inner => some fun stack => (inner stack).map fun _ => false
  | .pollFlush inner => some fun stack => (inner stack).map fun _ => false
  | .pollClose inner => some fun stack => (inner stack).map Poll.isReady
  | .drop _ => none

private theorem run_of_polls {call : Call α ε} {inner : Inner Bool} (h : call.method.polls = some inner)
    (span : Option Span) : call.run span =
      ((InSpan.poll id span call.stack inner call.spanEnd call.guardEnd).span,
        (InSpan.poll id span call.stack inner call.spanEnd call.guardEnd).sent) := by
  unfold Call.run
  cases hm : call.method with
  | drop cmds => rw [hm] at h; cases h
  | _ => rw [hm] at h; cases h; rfl

private theorem run_of_drop {call : Call α ε} (h : call.method.polls = none) (span : Option Span) :
    ∃ cmds, call.run span =
    (none, Sent.of .inner cmds ++ Sent.of .span (span.toList.flatMap fun s => s.drop call.spanEnd)) := by
  unfold Call.run
  cases hm : call.method with
  | drop cmds => exact ⟨cmds, rfl⟩
  | _ => rw [hm] at h; cases h

/-- The call leaves no span in the adapter. -/
def Call.finishes (span : Span) (call : Call α ε) : Bool :=
  match call.method.polls with
  | some inner => (inner (span.attachIntoStack call.stack).2).result
  | none => true

/-- There is room for a line, the poll leaves this line on top of the stack, and an item of its token is sampled. -/
def Call.guardOnTop (span : Span) (call : Call α ε) : Prop :=
  call.stack.spanLines.length < call.stack.capacity ∧ ∃ inner, call.method.polls = some inner ∧
    ∃ line lines token, (inner (span.attachIntoStack call.stack).2).stack.spanLines = line :: lines ∧
      line.epoch = call.stack.nextSpanLineEpoch ∧ line.collectToken = some token ∧
      ∃ item ∈ token, item.isSampled = true

/-- Of the calls the first that finishes, if there is one, does not have the line of its guard on top. -/
def FinishesUncovered (span : Span) : List (Call α ε) → Prop
  | [] => True
  | call :: calls => if call.finishes span then ¬call.guardOnTop span else FinishesUncovered span calls

private theorem submitSpans_eq_nil {spans : SpanSet} {token : CollectToken} :
    GlobalCollect.submitSpans spans token = [] ↔ ¬∃ item ∈ token, item.isSampled = true := by
  unfold GlobalCollect.submitSpans retainSampled
  simp

/-- A guard sends nothing exactly when its line is not on top or has no sampled item. -/
private theorem guard_drop_eq_nil {s : SpanInner} {stack left : LocalSpanStack} {now : Instant} :
    ((s.captureLocalSpans stack).1.drop left now).1 = [] ↔
      ¬(stack.spanLines.length < stack.capacity ∧ ∃ line lines token, left.spanLines = line :: lines ∧
        line.epoch = stack.nextSpanLineEpoch ∧ line.collectToken = some token ∧
        ∃ item ∈ token, item.isSampled = true) := by
  unfold SpanInner.captureLocalSpans LocalCollector.new LocalSpanStack.registerSpanLine
  by_cases hroom : stack.spanLines.length < stack.capacity
  · simp only [Nat.not_le.2 hroom, ↓reduceIte, LocalParentGuard.drop, LocalCollector.collectSpansAndToken,
      LocalSpanStack.unregisterAndCollect, SpanLine.collect]
    cases hlines : left.spanLines with
    | nil => simp
    | cons line lines =>
      by_cases hepoch : line.epoch = stack.nextSpanLineEpoch
      · cases htoken : line.collectToken with
        | none => simp [hepoch, htoken]
        | some token => simp [hepoch, htoken, hroom, submitSpans_eq_nil]
      · simp [hepoch]
  · simp [hroom, Nat.not_lt.1 hroom, LocalParentGuard.drop, LocalCollector.collectSpansAndToken]

/-- A guard sends nothing but submissions. -/
private theorem guard_drop_submits {guard : LocalParentGuard} {stack : LocalSpanStack} {now : Instant}
    {cmd : CollectCommand} (h : cmd ∈ (guard.drop stack now).1) : ∃ sub, cmd = .submitSpans sub := by
  unfold LocalParentGuard.drop at h
  split at h
  · cases h
  · simp only at h
    split at h
    · unfold GlobalCollect.submitSpans at h
      simp only at h
      split at h
      · exact ⟨_, List.mem_singleton.1 h⟩
      · cases h
    · cases h

/-! ### The order of the commands -/

private theorem mem_sentOf {source source' : Source} {cmd : CollectCommand} {cmds : List CollectCommand} :
    (source, cmd) ∈ Sent.of source' cmds ↔ source = source' ∧ cmd ∈ cmds := by
  unfold Sent.of
  rw [List.mem_map]
  constructor
  · rintro ⟨cmd', hcmd, h⟩
    cases h
    exact ⟨rfl, hcmd⟩
  · rintro ⟨rfl, hcmd⟩
    exact ⟨cmd, hcmd, rfl⟩

/-- What is sent before any commit does not matter. -/
private theorem submits_append {c : CollectId} {l l' : Sent} (h : (Source.span, CollectCommand.commitCollect c) ∉ l) :
    SubmitsBeforeCommit c (l ++ l') ↔ SubmitsBeforeCommit c l' := by
  constructor
  · intro hl before after hsplit cmd
    exact hl (l ++ before) after (by rw [hsplit, List.append_assoc]) cmd
  · intro hl before after hsplit cmd
    rcases List.append_eq_append_iff.1 hsplit with ⟨t, -, ht⟩ | ⟨t, ht, hrest⟩
    · exact hl t after ht cmd
    · cases t with
      | nil => exact hl [] after hrest.symm cmd
      | cons p t =>
        rw [List.cons_append, List.cons.injEq] at hrest
        exact absurd (by rw [ht, hrest.1]; simp) h

/-- Once the commit has been sent there may be no submission of a guard. -/
private theorem submits_commit {c : CollectId} {l : Sent} :
    SubmitsBeforeCommit c ((.span, .commitCollect c) :: l) ↔ ∀ cmd, (Source.guard, cmd) ∉ l := by
  constructor
  · exact fun h => h [] l rfl
  · intro h before after hsplit cmd hcmd
    cases before with
    | nil =>
      cases hsplit
      exact h cmd hcmd
    | cons p before =>
      rw [List.cons_append, List.cons.injEq] at hsplit
      exact h cmd (by rw [hsplit.2]; simp [hcmd])

/-- Without a span an adapter sends what the wrapped value sends. -/
private theorem sentBy_none (calls : List (Call α ε)) : ∀ p ∈ sentBy none calls, p.1 = Source.inner := by
  induction calls with
  | nil => intro p hp; cases hp
  | cons call calls ih =>
    have hrun : (call.run none).1 = none ∧ ∃ cmds, (call.run none).2 = Sent.of .inner cmds := by
      cases h : call.method.polls with
      | none =>
        obtain ⟨cmds, hcmds⟩ := run_of_drop h none
        exact ⟨by rw [hcmds], cmds, by rw [hcmds]; simp [Sent.of]⟩
      | some inner =>
        rw [run_of_polls h none]
        exact ⟨by simp [InSpan.poll], (inner call.stack).sent,
          by simp [InSpan.poll, InSpan.attach, InSpan.detach, Sent.of]⟩
    obtain ⟨hspan, cmds, hcmds⟩ := hrun
    intro p hp
    rw [sentBy, hspan, hcmds] at hp
    rcases List.mem_append.1 hp with hp | hp
    · obtain ⟨source, cmd⟩ := p
      exact (mem_sentOf.1 hp).1
    · exact ih p hp

/-- A call that does not finish the wrapped value keeps the span and commits nothing. -/
private theorem run_unfinished {span : Span} {call : Call α ε} (h : call.finishes span = false) (c : CollectId) :
    (call.run (some span)).1 = some span ∧
      (Source.span, CollectCommand.commitCollect c) ∉ (call.run (some span)).2 := by
  unfold Call.finishes at h
  cases hp : call.method.polls with
  | none => rw [hp] at h; cases h
  | some inner =>
    rw [hp] at h
    rw [run_of_polls hp]
    have hres : (inner (InSpan.attach (some span) call.stack).2).result = false := h
    simp [InSpan.poll, hres, mem_sentOf]

/-- The drop of a root submits the span and then commits the collection. -/
private theorem root_drop {s : SpanInner} {c : CollectId} (hroot : s.collectId = some c) (now : Instant) :
    ∃ submitted, Span.drop ⟨some s⟩ now = submitted ++ [.commitCollect c] ∧ .commitCollect c ∉ submitted := by
  unfold Span.drop
  simp only [hroot]
  refine ⟨_, rfl, ?_⟩
  unfold SpanInner.submitSpans GlobalCollect.submitSpans
  simp only
  split <;> simp

/-- The call that finishes the wrapped value commits the root and then drops the guard. -/
private theorem run_finished {s : SpanInner} {c : CollectId} (hroot : s.collectId = some c) {call : Call α ε}
    (h : call.finishes ⟨some s⟩ = true) : (call.run (some ⟨some s⟩)).1 = none ∧
      ∃ (earlier : Sent) (last : List CollectCommand),
        (call.run (some ⟨some s⟩)).2 = earlier ++ (.span, .commitCollect c) :: Sent.of .guard last ∧
        (Source.span, CollectCommand.commitCollect c) ∉ earlier ∧
        ((∀ sub, CollectCommand.submitSpans sub ∉ last) ↔ ¬call.guardOnTop ⟨some s⟩) ∧
        ∀ cmd ∈ last, ∃ sub, cmd = .submitSpans sub := by
  obtain ⟨submitted, hdrop, hsubmitted⟩ := root_drop hroot call.spanEnd
  have hearlier : ∀ cmds, (Source.span, CollectCommand.commitCollect c) ∉
      Sent.of .inner cmds ++ Sent.of .span submitted := by
    intro cmds hmem
    rcases List.mem_append.1 hmem with hmem | hmem
    · cases (mem_sentOf.1 hmem).1
    · exact hsubmitted (mem_sentOf.1 hmem).2
  unfold Call.finishes at h
  cases hp : call.method.polls with
  | none =>
    obtain ⟨cmds, hrun⟩ := run_of_drop hp (some ⟨some s⟩)
    refine ⟨by rw [hrun], Sent.of .inner cmds ++ Sent.of .span submitted, [], ?_, hearlier cmds, ?_, ?_⟩
    · rw [hrun]
      simp [hdrop, Sent.of]
    · simp [Call.guardOnTop, hp]
    · intro cmd hcmd
      cases hcmd
  | some inner =>
    rw [hp] at h
    have hres : (inner (Span.attachIntoStack ⟨some s⟩ call.stack).2).result = true := h
    rw [run_of_polls hp]
    have htop : call.guardOnTop ⟨some s⟩ ↔ ¬(((s.captureLocalSpans call.stack).1.drop
        (inner (s.captureLocalSpans call.stack).2).stack call.guardEnd).1 = []) := by
      rw [guard_drop_eq_nil, not_not]
      unfold Call.guardOnTop
      simp only [hp, Option.some.injEq, exists_eq_left']
      rfl
    have hsubmits : ∀ cmd ∈ ((s.captureLocalSpans call.stack).1.drop
        (inner (s.captureLocalSpans call.stack).2).stack call.guardEnd).1, ∃ sub, cmd = .submitSpans sub :=
      fun cmd hcmd => guard_drop_submits hcmd
    refine ⟨by simp [InSpan.poll, InSpan.attach, hres], _, _, ?_,
      hearlier (inner (s.captureLocalSpans call.stack).2).sent, ?_, hsubmits⟩
    · simp only [InSpan.poll, InSpan.attach, InSpan.detach, id_eq, hres, ↓reduceIte, Option.toList_some,
        List.flatMap_singleton, hdrop]
      simp only [Sent.of, List.map_append, List.append_assoc, List.map_cons, List.map_nil, List.cons_append,
        List.nil_append]
      rfl
    · rw [htop, not_not]
      constructor
      · intro hnone
        refine List.eq_nil_iff_forall_not_mem.2 fun cmd hcmd => ?_
        obtain ⟨sub, rfl⟩ := hsubmits cmd hcmd
        exact hnone sub hcmd
      · intro hnil sub hsub
        rw [hnil] at hsub
        cases hsub

/-- Instrumented futures, streams and sinks with the root of `c`, for every sequence of calls: every submission of a
guard precedes the commit of `c` if and only if the call that finishes the wrapped value or drops the adapter, if
there is one, does not leave the line of its own guard on top. -/
theorem submits_before_commit_iff (s : SpanInner) (c : CollectId) (hroot : s.collectId = some c)
    (calls : List (Call α ε)) :
    SubmitsBeforeCommit c (sentBy (some ⟨some s⟩) calls) ↔ FinishesUncovered ⟨some s⟩ calls := by
  induction calls with
  | nil =>
    refine ⟨fun _ => trivial, fun _ before after hsplit => ?_⟩
    exact absurd hsplit (by simp [sentBy])
  | cons call calls ih =>
    rw [sentBy, FinishesUncovered]
    cases hfin : call.finishes ⟨some s⟩ with
    | false =>
      obtain ⟨hspan, hnone⟩ := run_unfinished hfin c
      rw [submits_append hnone, hspan, ih]
      simp
    | true =>
      obtain ⟨hspan, earlier, last, hsent, hearlier, htop, hsubmits⟩ := run_finished hroot hfin
      rw [hsent, hspan, List.append_assoc, submits_append hearlier, List.cons_append, submits_commit, if_pos rfl,
        ← htop]
      constructor
      · exact fun h sub hsub => h _ (List.mem_append_left _ (mem_sentOf.2 ⟨rfl, hsub⟩))
      · intro h cmd hcmd
        rcases List.mem_append.1 hcmd with hcmd | hcmd
        · obtain ⟨sub, rfl⟩ := hsubmits cmd (mem_sentOf.1 hcmd).2
          exact h sub (mem_sentOf.1 hcmd).2
        · cases sentBy_none calls _ hcmd

/-! ### A root around one poll -/

/-- A poll that records a local span. -/
def recordingPoll {ρ : Type} (result : ρ) : Inner ρ := fun stack =>
  match LocalSpan.enterWithStack "work" stack ⟨2⟩ ⟨11⟩ with
  | some (span, entered) => ⟨result, (span.drop entered ⟨12⟩).getD entered, []⟩
  | none => ⟨result, stack, []⟩

/-- A call on an empty stack. -/
def callOf (method : Method Unit Unit) : Call Unit Unit := ⟨method, LocalSpanStack.withCapacity 8, ⟨13⟩, ⟨14⟩⟩

def wrappedRoot : Span := (Span.root true 0 "root" ⟨⟨1⟩, ⟨9⟩, true⟩ ⟨1⟩ ⟨10⟩).1

/-- A future that is pending once, then its adapter is dropped. -/
def pendingCalls : List (Call Unit Unit) := [callOf (.pollFuture (recordingPoll .pending)), callOf (.drop [])]

theorem submits_before_commit_pending : SubmitsBeforeCommit 0 (sentBy (some wrappedRoot) pendingCalls) :=
  (submits_before_commit_iff _ 0 rfl pendingCalls).2 (by
    rw [pendingCalls, FinishesUncovered, if_neg (by decide), FinishesUncovered, if_pos (by decide)]
    rintro ⟨-, inner, hpolls, -⟩
    cases hpolls)

/-- What a single call sends that finishes a future, exhausts a stream or closes a sink. -/
def finishingSends : List Sent :=
  [callOf (.pollFuture (recordingPoll (.ready ()))), callOf (.pollNext (recordingPoll (.ready none))),
    callOf (.pollClose (recordingPoll (.ready (.ok ()))))].map fun call => sentBy (some wrappedRoot) [call]

/-- The local span of the finishing poll is submitted after the commit.  When the collector runs between the two and
`cancelable` is set, the span is not reported. -/
theorem submitted_after_commit :
    (∀ sent ∈ finishingSends, (∃ root work, sent =
        [(.span, .submitSpans root), (.span, .commitCollect 0), (.guard, .submitSpans work)]) ∧
      ¬SubmitsBeforeCommit 0 sent) ∧
    ∀ sent ∈ finishingSends, ((GlobalCollector.start { cancelable := true }).handleRounds
      [⟨.startCollect 0 :: (sent.take 2).map Prod.snd, fun i => i.ticks, .stored⟩,
        ⟨(sent.drop 2).map Prod.snd, fun i => i.ticks, .stored⟩]).reported.map (List.map SpanRecord.name) =
      [["root"], []] := by
  have hshape : ∀ sent ∈ finishingSends, ∃ root work, sent =
      [(.span, .submitSpans root), (.span, .commitCollect 0), (.guard, .submitSpans work)] := by
    intro sent hsent
    simp only [finishingSends, List.map_cons, List.map_nil, List.mem_cons, List.not_mem_nil, or_false] at hsent
    rcases hsent with rfl | rfl | rfl <;> exact ⟨_, _, rfl⟩
  refine ⟨fun sent hsent => ⟨hshape sent hsent, fun h => ?_⟩, by decide⟩
  obtain ⟨root, work, rfl⟩ := hshape sent hsent
  exact h [(.span, .submitSpans root)] _ rfl _ (List.mem_singleton_self _)

end Fastrace
