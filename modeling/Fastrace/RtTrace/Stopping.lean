import Fastrace.RtTrace.Tracer

/-!
# Stopping the tracing

`start` and `stop` write one flag, which is read when a span is created and again when it is dropped.  `flush` clears
the flag while it takes the shards and then sets it, whatever it was before.  `Observed` is the runtime beside what an
observer of the calls notes: whether the user's latest call was `stop`, and of each span whether it was created then.
In every run in which no flush call sets the flag while the tracing is stopped, also when calls of `consume` panic, no
such span is pushed (`stop_respected_of_meet`).  If the tracing counts as stopped before the first call of `start`, the
flag is in such a run what the user's latest call has made it whenever no flush call is in its loop, so a flush call
leaves it as it has found it (`flag_kept_of_meet`).
-/

namespace RtTrace

/-! ### The observer -/

structure Observed (T : Type) where
  world : World T
  /-- The latest of the user's calls of `start` and `stop` is `stop`. -/
  stopped : Bool
  /-- The spans created while `stopped`. -/
  muted : Var → Bool := fun _ => false
  /-- The threads whose last dropped span was one of them. -/
  pushing : T → Bool := fun _ => false
  /-- The spans pushed to a queue, and whether they were created while `stopped`. -/
  pushed : List (RawSpan × Bool) := []

section Defs

variable {T : Type}

/-- The span that the next step pushes to a queue. -/
def World.pushes (w : World T) (t : T) : Op → Option RawSpan
  | .next _ => (w.phase t).toPush
  | _ => none

/-- The next step is the `start` at the end of the loop of `flush` over the shards. -/
def World.restarts (w : World T) (t : T) : Op → Bool
  | .next _ =>
    match w.phase t with
    | .flushing index => decide (w.queues.length ≤ index)
    | _ => false
  | _ => false

namespace Observed

/-- `atFirst` says whether the tracing counts as stopped before the user's first call. -/
def init (shardNum : Nat) (h : 0 < shardNum) (atFirst : Bool) : Observed T where
  world := World.init shardNum h
  stopped := atFirst

variable [DecidableEq T]

/-- The operation takes the runtime to `w`. -/
def note (o : Observed T) (t : T) (op : Op) (w : World T) : Observed T where
  world := w
  stopped :=
    match op with
    | .start => false
    | .stop => true
    | _ => o.stopped
  muted :=
    match op with
    | .span h _ _ => Function.update o.muted h o.stopped
    | _ => o.muted
  pushing :=
    match op with
    | .dropSpan h _ => Function.update o.pushing t (o.muted h)
    | _ => o.pushing
  pushed := o.pushed ++ ((o.world.pushes t op).map fun span => (span, o.pushing t)).toList

def step (info : T → ThreadInfo) (o : Observed T) : T × PanicOp → Option (Observed T)
  | (t, a) => (o.world.act info (t, a)).map (o.note t a.op)

end Observed

end Defs

/-! ### What a step does to the flag and the spans -/

section Step

variable {T : Type} {info : T → ThreadInfo} {w w' : World T} {t : T} {op : Op}

structure Notices (w : World T) (t : T) (op : Op) (w' : World T) : Prop where
  enabled : w'.enabled = true → w.enabled = true ∧ op ≠ .stop ∨ op = .start ∨ w.restarts t op = true
  /-- A span is there from before, or it is new and does nothing while the flag is not set. -/
  spans : ∀ h span, w'.spans h = some span →
    w.spans h = some span ∧ (∀ typ now, op ≠ .span h typ now) ∨
      ∃ typ now, op = .span h typ now ∧ (w.enabled = false → span.inner = none)
  /-- A thread that pushes has dropped the span before, or does now. -/
  pushing : ∀ u span, (w'.phase u).toPush = some span →
    (w.phase u).toPush = some span ∧ (∀ h now, op = .dropSpan h now → u ≠ t) ∨
      u = t ∧ ∃ h now dropped, op = .dropSpan h now ∧ w.spans h = some dropped ∧ dropped.inner.isSome = true
  pushed : w'.history.pushed = w.history.pushed ++ (w.pushes t op).toList

/-- A step that creates and drops no span and begins no push. -/
private theorem notices_quiet (hspan : ∀ h typ now, op ≠ .span h typ now) (hdrop : ∀ h now, op ≠ .dropSpan h now)
    (henabled : w'.enabled = true → w.enabled = true ∧ op ≠ .stop ∨ op = .start ∨ w.restarts t op = true)
    (hspans : w'.spans = w.spans)
    (hphase : ∀ u span, (w'.phase u).toPush = some span → (w.phase u).toPush = some span)
    (hpushed : w'.history.pushed = w.history.pushed ++ (w.pushes t op).toList) : Notices w t op w' := by
  constructor
  case enabled => exact henabled
  case spans =>
    intro h span hold
    rw [hspans] at hold
    exact Or.inl ⟨hold, hspan h⟩
  case pushing => exact fun u span hu => Or.inl ⟨hphase u span hu, fun h now hop => absurd hop (hdrop h now)⟩
  case pushed => exact hpushed

/-- A span is created; it is a no-op while the flag is not set. -/
private theorem notices_span {v : Var} {typ : SpanType} {now : Fastrace.Instant} {span : Span}
    (henabled : w'.enabled = w.enabled) (hspans : w'.spans = Function.update w.spans v (some span))
    (hinner : w.enabled = false → span.inner = none) (hphase : w'.phase = w.phase)
    (hpushed : w'.history.pushed = w.history.pushed) : Notices w t (.span v typ now) w' := by
  constructor
  case enabled =>
    rw [henabled]
    exact fun h => Or.inl ⟨h, fun hop => by cases hop⟩
  case spans =>
    intro h old hold
    rw [hspans, Function.update_apply] at hold
    split at hold
    · rename_i hv
      cases hold
      exact Or.inr ⟨typ, now, by rw [hv], hinner⟩
    · rename_i hv
      refine Or.inl ⟨hold, fun typ' now' hop => ?_⟩
      cases hop
      exact hv rfl
  case pushing =>
    rw [hphase]
    exact fun u span hu => Or.inl ⟨hu, fun h now' hop => by cases hop⟩
  case pushed => exact hpushed.trans (List.append_nil _).symm

variable [DecidableEq T]

/-- A span is dropped; nothing is pushed while the flag is not set, or for a no-op. -/
private theorem notices_drop {v : Var} {now : Fastrace.Instant} {dropped : Span} (hfree : w.free t = true)
    (hdropped : w.spans v = some dropped) (henabled : w'.enabled = w.enabled)
    (hspans : w'.spans = Function.update w.spans v none)
    (hphase : ∀ u span, (w'.phase u).toPush = some span →
      (w.phase u).toPush = some span ∨ u = t ∧ dropped.inner.isSome = true)
    (hpushed : w'.history.pushed = w.history.pushed) : Notices w t (.dropSpan v now) w' := by
  constructor
  case enabled =>
    rw [henabled]
    exact fun h => Or.inl ⟨h, fun hop => by cases hop⟩
  case spans =>
    intro h old hold
    rw [hspans, Function.update_apply] at hold
    split at hold
    · cases hold
    · exact Or.inl ⟨hold, fun typ now' hop => by cases hop⟩
  case pushing =>
    intro u span hu
    rcases hphase u span hu with hold | ⟨hut, hinner⟩
    · refine Or.inl ⟨hold, ?_⟩
      rintro h now' - rfl
      rw [free_idle hfree] at hold
      cases hold
    · exact Or.inr ⟨hut, v, now, dropped, rfl, hdropped, hinner⟩
  case pushed => exact hpushed.trans (List.append_nil _).symm

/-- A step in a call that takes the thread to a phase without a push, and leaves the flag or sets it at the end of the
loop. -/
private theorem notices_phase {order : IterOrder RawSpan} {p : Phase} (hp : p.toPush = none)
    (henabled : w'.enabled = w.enabled ∨ w.restarts t (.next order) = true) (hspans : w'.spans = w.spans)
    (hphase : w'.phase = Function.update w.phase t p)
    (hpushed : w'.history.pushed = w.history.pushed ++ (w.phase t).toPush.toList) :
    Notices w t (.next order) w' := by
  refine notices_quiet (fun _ _ _ h => by cases h) (fun _ _ h => by cases h) ?_ hspans ?_ hpushed
  · intro htrue
    rcases henabled with hsame | hrestarts
    · exact Or.inl ⟨hsame ▸ htrue, fun h => by cases h⟩
    · exact Or.inr (Or.inr hrestarts)
  · intro u span hu
    rw [hphase] at hu
    exact toPush_update hp hu

omit [DecidableEq T] in
private theorem restarts_of_phase {order : IterOrder RawSpan} {index : Nat} (hphase : w.phase t = .flushing index)
    (hindex : w.queues.length ≤ index) : w.restarts t (.next order) = true := by
  simp [World.restarts, hphase, hindex]

private theorem step_notices (hw : w.step info (t, op) = some w') : Notices w t op w' := by
  -- what a phase without a push adds to the pushed spans
  have hnone : (w.phase t).toPush = none → w.history.pushed = w.history.pushed ++ (w.phase t).toPush.toList := by
    intro hnone
    rw [hnone]
    exact (List.append_nil _).symm
  have hpush : ∀ {p : Phase}, p.toPush = none → ∀ u span, (Function.update w.phase t p u).toPush = some span →
      (w.phase u).toPush = some span := fun hp u span hu => toPush_update hp hu
  cases step_transition hw with
  | threadStart | threadExit =>
    exact notices_quiet (fun _ _ _ h => by cases h) (fun _ _ h => by cases h)
      (fun h => Or.inl ⟨h, fun hop => by cases hop⟩) rfl (fun _ _ hu => hu) (List.append_nil _).symm
  | start =>
    exact notices_quiet (fun _ _ _ h => by cases h) (fun _ _ h => by cases h) (fun _ => Or.inr (Or.inl rfl)) rfl
      (fun _ _ hu => hu) (List.append_nil _).symm
  | stop =>
    exact notices_quiet (fun _ _ _ h => by cases h) (fun _ _ h => by cases h) (fun h => by cases h) rfl
      (fun _ _ hu => hu) (List.append_nil _).symm
  | flush =>
    exact notices_quiet (fun _ _ _ h => by cases h) (fun _ _ h => by cases h) (fun h => by cases h) rfl
      (hpush rfl) (List.append_nil _).symm
  | collect =>
    exact notices_quiet (fun _ _ _ h => by cases h) (fun _ _ h => by cases h)
      (fun h => Or.inl ⟨h, fun hop => by cases hop⟩) rfl (hpush rfl) (List.append_nil _).symm
  | span hfree hspan henabled hadd =>
    refine notices_span rfl rfl (fun hdisabled => ?_) rfl rfl
    rw [henabled] at hdisabled
    cases hdisabled
  | noopSpan => exact notices_span rfl rfl (fun _ => rfl) rfl rfl
  | dropSpan hfree hspan henabled hraw =>
    refine notices_drop hfree hspan rfl rfl (fun u span hu => ?_) rfl
    change (Function.update w.phase t _ u).toPush = _ at hu
    rw [Function.update_apply] at hu
    split at hu
    · rename_i hut
      exact Or.inr ⟨hut, by rw [hraw]; rfl⟩
    · exact Or.inl hu
  | forgetSpan hfree hspan hnoop => exact notices_drop hfree hspan rfl rfl (fun _ _ hu => Or.inl hu) rfl
  | push hphase hqueue hnone =>
    refine notices_phase (p := .idle) rfl (Or.inl rfl) rfl rfl ?_
    rw [hphase]
    rfl
  | pushBatch hphase hqueue hcommand hsend =>
    have hkeeps := sendCommand_keeps hsend
    refine notices_phase (p := .idle) rfl (Or.inl hkeeps.enabled) hkeeps.spans hkeeps.phase ?_
    rw [hkeeps.pushed, hphase]
    rfl
  | flushShard hphase hindex hqueue hsend =>
    have hkeeps := sendCommand_keeps hsend
    exact notices_phase rfl (Or.inl hkeeps.enabled) hkeeps.spans hkeeps.phase
      (hkeeps.pushed.trans (hnone (by rw [hphase]; rfl)))
  | restart hphase hindex =>
    exact notices_phase rfl (Or.inr (restarts_of_phase hphase hindex)) rfl rfl (hnone (by rw [hphase]; rfl))
  | receive hphase hu hchannel =>
    exact notices_quiet (fun _ _ _ h => by cases h) (fun _ _ h => by cases h)
      (fun h => Or.inl ⟨h, fun hop => by cases hop⟩) rfl (fun _ _ hu => hu) (hnone (by rw [hphase]; rfl))
  | lock hphase | nextReceiver hphase | lastReceiver hphase | endRound hphase | drainNothing hphase | drain hphase
  | consume hphase | endFlush hphase =>
    exact notices_phase rfl (Or.inl rfl) rfl rfl (hnone (by rw [hphase]; rfl))

/-- A panic changes no flag and no span and pushes nothing. -/
private theorem Notices.unwind (h : Notices w t op w') (u : T) : Notices w t op (w'.unwind u) := by
  refine ⟨h.enabled, h.spans, fun v span hv => h.pushing v span ?_, h.pushed⟩
  exact toPush_update rfl hv

end Step

/-! ### Runs -/

section Run

variable {T : Type}

/-- Spans created while stopped are not pushed and not delivered, and the flag is not set while stopped. -/
structure StopRespected (o : Observed T) : Prop where
  flag : o.stopped = true → o.world.enabled = false
  unpushed : ∀ entry ∈ o.pushed, entry.2 = false
  pushed : o.pushed.map Prod.fst = o.world.history.pushed
  delivered : (↑(o.world.consumed.flatMap Prod.snd) : Multiset RawSpan) ≤ ↑(o.pushed.map Prod.fst)

/-- The step does not set the flag at the end of the loop of `flush` while the tracing is stopped. -/
def LeavesStopped (o : Observed T) (a : T × PanicOp) : Prop :=
  o.world.restarts a.1 a.2.op = true → o.stopped = false

instance (o : Observed T) (a : T × PanicOp) : Decidable (LeavesStopped o a) :=
  inferInstanceAs (Decidable (_ → _))

/-- What the steps that leave the tracing stopped keep. -/
structure Muted (o : Observed T) : Prop where
  flag : o.stopped = true → o.world.enabled = false
  spans : ∀ h span, o.muted h = true → o.world.spans h = some span → span.inner = none
  pushing : ∀ u span, (o.world.phase u).toPush = some span → o.pushing u = false
  unpushed : ∀ entry ∈ o.pushed, entry.2 = false

variable [DecidableEq T] {info : T → ThreadInfo} {o o' : Observed T} {shardNum : Nat} {hpos : 0 < shardNum}
  {atFirst : Bool} {as : List (T × PanicOp)}

/-- The observer notes what the runtime does, which is unwound when `consume` panics. -/
private theorem observed_step {t : T} {a : PanicOp} (ho : o.step info (t, a) = some o') :
    ∃ w w', o.world.step info (t, a.op) = some w ∧ o' = o.note t a.op w' ∧ (w' = w ∨ w' = w.unwind t) := by
  obtain ⟨w', hw', rfl⟩ := Option.map_eq_some_iff.1 ho
  obtain ⟨w, hw, rfl⟩ := Option.map_eq_some_iff.1 hw'
  refine ⟨w, _, hw, rfl, ?_⟩
  split
  · exact Or.inr rfl
  · exact Or.inl rfl

/-- `flush` sets the flag, whatever it was when the call began. -/
private theorem enabled_of_restarts {w w' : World T} {t : T} {op : Op} (hw : w.step info (t, op) = some w')
    (hrestarts : w.restarts t op = true) : w'.enabled = true := by
  cases step_transition hw with
  | restart => rfl
  | flushShard hphase hindex =>
    simp only [World.restarts, hphase, decide_eq_true_iff] at hrestarts
    omega
  | push hphase | pushBatch hphase | lock hphase | receive hphase | nextReceiver hphase | lastReceiver hphase
  | endRound hphase | drainNothing hphase | drain hphase | consume hphase | endFlush hphase =>
    simp [World.restarts, hphase] at hrestarts
  | _ => cases hrestarts

private theorem observed_notices {t : T} {a : PanicOp} (ho : o.step info (t, a) = some o') :
    ∃ w, o' = o.note t a.op w ∧ Notices o.world t a.op w ∧
      (o.world.restarts t a.op = true → w.enabled = true) := by
  obtain ⟨w, w', hw, ho', rfl | rfl⟩ := observed_step ho
  · exact ⟨_, ho', step_notices hw, enabled_of_restarts hw⟩
  · have henabled := enabled_of_restarts hw
    exact ⟨_, ho', (step_notices hw).unwind t, henabled⟩

/-- The observer notes every push. -/
private theorem pushed_of_observed
    (hrun : Steps.run (Observed.step info) (Observed.init shardNum hpos atFirst) as = some o) :
    o.pushed.map Prod.fst = o.world.history.pushed := by
  refine Steps.run_induction (P := fun o : Observed T => o.pushed.map Prod.fst = o.world.history.pushed) ?_ rfl hrun
  rintro o ⟨t, a⟩ o' h ho
  obtain ⟨w, rfl, hnotices, -⟩ := observed_notices ho
  change _ = w.history.pushed
  rw [hnotices.pushed, ← h]
  cases hpushes : o.world.pushes t a.op <;> simp [Observed.note, hpushes]

/-- What the observer sees is a run of the runtime. -/
private theorem act_of_observed
    (hrun : Steps.run (Observed.step info) (Observed.init shardNum hpos atFirst) as = some o) :
    Steps.run (World.act info) (World.init shardNum hpos) as = some o.world := by
  refine Steps.history_induction (P := fun as (o : Observed T) =>
    Steps.run (World.act info) (World.init shardNum hpos) as = some o.world) rfl ?_ hrun
  rintro as o ⟨t, a⟩ o' - h ho
  obtain ⟨w, hw, rfl⟩ := Option.map_eq_some_iff.1 ho
  exact Steps.run_step h hw

/-- A step keeps the flag cleared while the tracing is stopped just when it is not the end of the loop of a flush call
in that state. -/
private theorem flag_step_iff (h : o.stopped = true → o.world.enabled = false) {a : T × PanicOp}
    (ho : o.step info a = some o') :
    (o'.stopped = true → o'.world.enabled = false) ↔ LeavesStopped o a := by
  obtain ⟨t, op, panics⟩ := a
  obtain ⟨w, rfl, hnotices, hrestarted⟩ := observed_notices ho
  constructor
  · intro hflag hrestarts
    have henabled := hrestarted hrestarts
    cases op with
    | next order =>
      by_contra hstopped
      have hdisabled : w.enabled = false := hflag (eq_true_of_ne_false hstopped)
      rw [henabled] at hdisabled
      cases hdisabled
    | _ => cases hrestarts
  · intro hleaves hstopped
    by_contra henabled
    rcases hnotices.enabled (eq_true_of_ne_false henabled) with ⟨hbefore, hop⟩ | rfl | hrestarts
    · have hold : o.stopped = true := by
        cases op with
        | stop => exact absurd rfl hop
        | start => cases hstopped
        | _ => exact hstopped
      rw [h hold] at hbefore
      cases hbefore
    · cases hstopped
    · have hold : o.stopped = true := by
        cases op with
        | next order => exact hstopped
        | _ => cases hrestarts
      rw [hleaves hrestarts] at hold
      cases hold

theorem Muted.step (h : Muted o) {a : T × PanicOp} (hleaves : LeavesStopped o a) (ho : o.step info a = some o') :
    Muted o' := by
  have hflag := (flag_step_iff h.flag ho).2 hleaves
  obtain ⟨t, op, panics⟩ := a
  obtain ⟨w, rfl, hnotices, -⟩ := observed_notices ho
  constructor
  case flag => exact hflag
  case spans =>
    intro v span hmuted hspan
    rcases hnotices.spans v span hspan with ⟨hold, hop⟩ | ⟨typ, now, rfl, hinner⟩
    · refine h.spans v span ?_ hold
      cases op with
      | span v' typ now =>
        have hne : v ≠ v' := by
          rintro rfl
          exact hop typ now rfl
        simp only [Observed.note, Function.update_of_ne hne] at hmuted
        exact hmuted
      | _ => exact hmuted
    · simp only [Observed.note, Function.update_self] at hmuted
      exact hinner (h.flag hmuted)
  case pushing =>
    intro u span hu
    rcases hnotices.pushing u span hu with ⟨hold, hop⟩ | ⟨rfl, v, now, dropped, rfl, hdropped, hinner⟩
    · have hfalse := h.pushing u span hold
      cases op with
      | dropSpan v now => simp only [Observed.note, Function.update_of_ne (hop v now rfl), hfalse]
      | _ => exact hfalse
    · simp only [Observed.note, Function.update_self]
      by_contra hmuted
      rw [h.spans v dropped (eq_true_of_ne_false hmuted) hdropped] at hinner
      cases hinner
  case unpushed =>
    intro entry hentry
    rcases List.mem_append.1 hentry with hold | hnew
    · exact h.unpushed entry hold
    · obtain ⟨span, hspan, rfl⟩ := Option.map_eq_some_iff.1 (Option.mem_toList.1 hnew)
      cases op with
      | next order => exact h.pushing t span hspan
      | _ => cases hspan

/-- In every run in which no flush call sets the flag while the tracing is stopped, `stop` is respected. -/
theorem stop_respected_of_meet
    (hmeet : Steps.Meet (Observed.step info) LeavesStopped (Observed.init shardNum hpos atFirst) as)
    (hrun : Steps.run (Observed.step info) (Observed.init shardNum hpos atFirst) as = some o) : StopRespected o := by
  have hinit : Muted (Observed.init shardNum hpos atFirst : Observed T) :=
    ⟨fun _ => rfl, fun h span hmuted => (by cases hmuted), fun u span hu => (by cases hu),
      fun entry hentry => (by cases hentry)⟩
  have hmuted : Muted o := Steps.meet_induction (fun _ _ _ h hleaves ho => h.step hleaves ho) hinit hmeet hrun
  have hpushed := pushed_of_observed hrun
  refine ⟨hmuted.flag, hmuted.unpushed, hpushed, ?_⟩
  rw [hpushed]
  have haccounted := accounted_of_run (act_of_observed hrun)
  exact (consumed_le_sent _).trans ((Multiset.le_add_left ..).trans haccounted.pushed.ge)

/-! ### The flag between flush calls -/

/-- No flush call is in its loop over the shards. -/
def World.Unflushed (w : World T) : Prop := ∀ u index, w.phase u ≠ .flushing index

/-- When no flush call is in its loop, the flag is what the user's latest call has made it. -/
def FlagKept (o : Observed T) : Prop := o.world.Unflushed → o.world.enabled = !o.stopped

omit [DecidableEq T] in
private theorem unflushed_of {w w' : World T} (h : w'.Unflushed)
    (hphase : ∀ u index, w.phase u = .flushing index → w'.phase u = .flushing index) : w.Unflushed :=
  fun u index hu => h u index (hphase u index hu)

/-- The flag is set by `start` and at the end of the loop of a flush call, and cleared by `stop` and `flush`. -/
private theorem step_flag (h : FlagKept o) {t : T} {op : Op}
    (hleaves : o.world.restarts t op = true → o.stopped = false) {w : World T}
    (hw : o.world.step info (t, op) = some w) (hunflushed : w.Unflushed) (w' : World T) :
    w.enabled = !(o.note t op w').stopped := by
  -- a step of a thread outside the loop
  have hother : ∀ {p : Phase}, (∀ index, o.world.phase t ≠ .flushing index) →
      w.phase = Function.update o.world.phase t p → o.world.Unflushed := by
    intro p ht hphase
    refine unflushed_of hunflushed fun u index hu => ?_
    have hne : u ≠ t := fun he => ht index (he ▸ hu)
    rw [hphase, Function.update_of_ne hne, hu]
  cases step_transition hw with
  | start | stop => rfl
  | threadStart | threadExit | span | noopSpan | forgetSpan | receive => exact h hunflushed
  | flush => exact absurd (Function.update_self ..) (hunflushed t 0)
  | flushShard hphase hindex hqueue hsend =>
    have hself := congrFun (sendCommand_keeps hsend).phase t
    exact absurd (hself.trans (Function.update_self ..)) (hunflushed t _)
  | restart hphase hindex =>
    change true = !o.stopped
    rw [hleaves (restarts_of_phase hphase hindex)]
    rfl
  | pushBatch hphase hqueue hpush hsend =>
    have hkeeps := sendCommand_keeps hsend
    rw [hkeeps.enabled]
    exact h (hother (by simp [hphase]) hkeeps.phase)
  | collect hfree | dropSpan hfree => exact h (hother (by simp [free_idle hfree]) rfl)
  | push hphase | lock hphase | nextReceiver hphase | lastReceiver hphase | endRound hphase | drainNothing hphase
  | drain hphase | consume hphase | endFlush hphase => exact h (hother (by simp [hphase]) rfl)

theorem FlagKept.step (h : FlagKept o) {a : T × PanicOp} (hleaves : LeavesStopped o a)
    (ho : o.step info a = some o') : FlagKept o' := by
  obtain ⟨t, a⟩ := a
  obtain ⟨w, hw, rfl⟩ := Option.map_eq_some_iff.1 ho
  obtain ⟨w₁, hstep, rfl⟩ := Option.map_eq_some_iff.1 hw
  intro hunflushed
  have henabled : (if a.panics && (o.world.consumes t a.op).isSome then w₁.unwind t else w₁).enabled = w₁.enabled := by
    split <;> rfl
  refine henabled.trans (step_flag h hleaves hstep ?_ _)
  change World.Unflushed (if _ then _ else _) at hunflushed
  split at hunflushed
  · rename_i hpanics
    rw [Bool.and_eq_true, Option.isSome_iff_exists] at hpanics
    obtain ⟨-, ⟨order, batch⟩, hconsumes⟩ := hpanics
    obtain ⟨-, -, batches, hphase⟩ := step_of_consumes hstep hconsumes
    refine unflushed_of hunflushed fun u index hu => ?_
    have hne : u ≠ t := by
      rintro rfl
      rw [hphase] at hu
      cases hu
    exact (Function.update_of_ne hne ..).trans hu
  · exact hunflushed

/-- In every run in which no flush call sets the flag while the tracing is stopped, and in which it counts as stopped
before the first call, a flush call leaves the flag as it has found it. -/
theorem flag_kept_of_meet (hmeet : Steps.Meet (Observed.step info) LeavesStopped (Observed.init shardNum hpos true) as)
    (hrun : Steps.run (Observed.step info) (Observed.init shardNum hpos true) as = some o) : FlagKept o :=
  Steps.meet_induction (fun _ _ _ h hleaves ho => h.step hleaves ho) (fun _ => rfl) hmeet hrun

end Run

def observedFrom (as : List (TwoThreads × PanicOp)) : Observed TwoThreads :=
  (Steps.run (Observed.step twoThreads) (Observed.init 1 Nat.one_pos false) as).getD (Observed.init 1 Nat.one_pos false)

/-- One of the two spans is created while the tracing is stopped, and the flush call while it is not; it panics. -/
def stopAndRestart : List (TwoThreads × PanicOp) := quietly (List.flatten [
  [(.a, .threadStart), (.a, .start), (.a, .span 0 .runtimePark ⟨5⟩), (.a, .stop), (.a, .span 1 .runtimePark ⟨6⟩),
    (.a, .start), (.a, .dropSpan 0 ⟨7⟩)], nexts .a 1, [(.a, .dropSpan 1 ⟨8⟩), (.a, .flush)], nexts .a 7]) ++
  [(.a, { op := .next .stored, panics := true })]

theorem stop_respected_restart :
    (observedFrom stopAndRestart).pushed.length = 1 ∧ StopRespected (observedFrom stopAndRestart) :=
  ⟨by decide +kernel, stop_respected_of_meet (by decide +kernel) (Steps.run_eq_getD (by decide +kernel))⟩

/-- A flush call after `stop`, and then a span. -/
def stopAndFlush : List (TwoThreads × PanicOp) := quietly (List.flatten [
  [(.a, .threadStart), (.a, .start), (.a, .stop), (.a, .flush)], nexts .a 9,
  [(.a, .span 0 .runtimePark ⟨5⟩), (.a, .dropSpan 0 ⟨6⟩)], nexts .a 1, [(.a, .flush)], nexts .a 9])

/-- The span is pushed and delivered, although it has been created while the tracing was stopped. -/
theorem pushed_after_stop :
    Steps.run (Observed.step twoThreads) (Observed.init 1 Nat.one_pos false) stopAndFlush =
        some (observedFrom stopAndFlush) ∧
      (observedFrom stopAndFlush).stopped = true ∧ (overtakenSpan, true) ∈ (observedFrom stopAndFlush).pushed ∧
      overtakenSpan ∈ (observedFrom stopAndFlush).world.consumed.flatMap Prod.snd :=
  ⟨Steps.run_eq_getD (by decide +kernel), by decide +kernel, by decide +kernel, by decide +kernel⟩

end RtTrace
