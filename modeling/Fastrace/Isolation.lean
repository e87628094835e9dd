import Fastrace.Cancelable

/-!
# Isolation of traces

The collectors of all traces append to one vector of records, and a span with several parents puts the same span id
into several of them.  Nevertheless what is reported for `c` is a function of the commands and token items that
mention `c` (`reportedFor` depends on nothing else), and an event or property on a record of `c` was submitted in an
item of `c` and addressed to the span of that record.
-/

namespace Fastrace

/-- The starts, drops and commits of `c`, in order. -/
def controlsFor (c : CollectId) (cmds : List CollectCommand) : List CollectCommand :=
  cmds.filter fun cmd => cmd = .startCollect c ∨ cmd = .dropCollect c ∨ cmd = .commitCollect c

/-- Two rounds agree on everything that mentions `c`. -/
structure SameFor (c : CollectId) (r r' : Round) : Prop where
  controls : controlsFor c r.commands = controlsFor c r'.commands
  submissions : submissionsFor c r.commands = submissionsFor c r'.commands
  anchor : r.anchor = r'.anchor

private theorem mem_controlsFor {c : CollectId} {cmds : List CollectCommand} {cmd : CollectCommand}
    (hcmd : cmd = .startCollect c ∨ cmd = .dropCollect c ∨ cmd = .commitCollect c) :
    cmd ∈ controlsFor c cmds ↔ cmd ∈ cmds := by
  simp [controlsFor, hcmd]

private theorem traceStep_congr {c : CollectId} {r r' : Round} (h : SameFor c r r') (cancelable : Bool)
    (st : Option TraceState) : traceStep cancelable c st r = traceStep cancelable c st r' := by
  have hi : r.items c = r'.items c := by
    simp only [Round.items, itemsFor, h.submissions]
  have hcontrol : ∀ cmd, cmd = .startCollect c ∨ cmd = .dropCollect c ∨ cmd = .commitCollect c →
      (cmd ∈ r.commands ↔ cmd ∈ r'.commands) := fun cmd hcmd => by
    rw [← mem_controlsFor hcmd, h.controls, mem_controlsFor hcmd]
  have hs : r.starts c ↔ r'.starts c := hcontrol _ (Or.inl rfl)
  have hd : r.drops c ↔ r'.drops c := hcontrol _ (Or.inr (Or.inl rfl))
  have hc : r.commits c ↔ r'.commits c := hcontrol _ (Or.inr (Or.inr rfl))
  have he : entered c st r = entered c st r' := by
    unfold entered
    simp only [hs, hd, hi]
  unfold traceStep
  simp only [he, hc, hi, h.anchor]

private theorem traceOut_congr {c : CollectId} {rounds rounds' : List Round}
    (h : List.Forall₂ (SameFor c) rounds rounds') (cancelable : Bool) (st : Option TraceState) :
    traceOut cancelable c st rounds = traceOut cancelable c st rounds' := by
  induction h generalizing st with
  | nil => rfl
  | cons hr _ ih => rw [traceOut, traceOut, traceStep_congr hr, ih]

/-! ### Where attachments come from -/

private theorem mem_attachments {ts : List TimedItem} {p : SpanId × DanglingItem} :
    p ∈ attachments ts ↔ ∃ t ∈ ts, p ∈ t.2.attachments t.1 := List.mem_flatMap

/-- The attachments `a` for the span `x` that some round of `l` has received in an item of `c`. -/
def SubmittedIn (c : CollectId) (l : List Round) (x : SpanId) (a : DanglingItem) : Prop :=
  ∃ r ∈ l, ∃ i ∈ r.items c, ∃ anchor, (x, a) ∈ i.attachments anchor

private theorem SubmittedIn.mono {c : CollectId} {l l' : List Round} (hl : ∀ r ∈ l, r ∈ l') {x : SpanId}
    {a : DanglingItem} (h : SubmittedIn c l x a) : SubmittedIn c l' x a := by
  obtain ⟨r, hr, i, hi, anchor, ha⟩ := h
  exact ⟨r, hl r hr, i, hi, anchor, ha⟩

private theorem gathered_submitted {c : CollectId} {l : List Round} {d : Waiting}
    (hd : ∀ x a, a ∈ d x → SubmittedIn c l x a) {anchor : Anchor} {items : List Item}
    (hitems : ∀ i ∈ items, ∃ r ∈ l, i ∈ r.items c) {x : SpanId} {a : DanglingItem}
    (h : a ∈ gathered d (timed anchor items) x) : SubmittedIn c l x a := by
  unfold gathered at h
  rw [List.mem_append, mem_keyed, mem_attachments] at h
  rcases h with h | ⟨t, ht, hp⟩
  · exact hd x a h
  · obtain ⟨i, hi, rfl⟩ := List.mem_map.1 ht
    obtain ⟨r, hr, hir⟩ := hitems i hi
    exact ⟨r, hr, i, hir, anchor, hp⟩

/-- What waits in the collector of `c` was submitted for `c`, and so were the items it holds. -/
private theorem openState_submitted (cancelable : Bool) (c : CollectId) (window : List Round) :
    (∀ x a, a ∈ (openState cancelable c window).waiting x → SubmittedIn c window x a) ∧
      ∀ i ∈ (openState cancelable c window).items, ∃ r ∈ window, i ∈ r.items c := by
  induction window using List.reverseRecOn with
  | nil => exact ⟨fun _ _ h => absurd h List.not_mem_nil, fun _ h => absurd h List.not_mem_nil⟩
  | append_singleton window r ih =>
    have hmono : ∀ r' ∈ window, r' ∈ window ++ [r] := fun r' h => List.mem_append_left _ h
    have hitems : ∀ i ∈ (openState cancelable c window).items ++ r.items c, ∃ r' ∈ window ++ [r], i ∈ r'.items c := by
      intro i hi
      rcases List.mem_append.1 hi with hi | hi
      · obtain ⟨r', hr', h⟩ := ih.2 i hi
        exact ⟨r', hmono r' hr', h⟩
      · exact ⟨r, by simp, hi⟩
    rw [openState_snoc]
    cases cancelable with
    -- with `cancelable` nothing is mounted before the commit, so the items are what has been kept
    | true => exact ⟨fun x a h => (ih.1 x a h).mono hmono, hitems⟩
    -- without it no item is kept, and what waits was there before or comes in this round
    | false =>
      refine ⟨fun x a h => ?_, fun _ h => absurd h List.not_mem_nil⟩
      simp only [Bool.false_eq_true, ↓reduceIte, leftover] at h
      split at h
      · cases h
      · exact gathered_submitted (fun x a h => (ih.1 x a h).mono hmono) hitems h

private theorem recordsOf_submitted {c : CollectId} {l : List Round} {d : Waiting}
    (hd : ∀ x a, a ∈ d x → SubmittedIn c l x a) {anchor : Anchor} {items : List Item}
    (hitems : ∀ i ∈ items, ∃ r ∈ l, i ∈ r.items c) {rec : SpanRecord}
    (h : rec ∈ recordsOf d (timed anchor items)) :
    ∃ r ∈ l, ∃ i ∈ r.items c, ∃ head ∈ i.heads anchor, ∃ ds, rec = head.mount ds ∧
      ∀ a ∈ ds, SubmittedIn c l head.spanId a := by
  obtain ⟨head, hh, ds, rfl, hds⟩ := mem_mountAll h
  obtain ⟨t, ht, hp⟩ := List.mem_flatMap.1 hh
  obtain ⟨i, hi, rfl⟩ := List.mem_map.1 ht
  obtain ⟨r, hr, hir⟩ := hitems i hi
  exact ⟨r, hr, i, hir, head, hp, ds, rfl, fun a ha => gathered_submitted hd hitems (hds a ha)⟩

/-- A record reported for `c` in round `k` is a raw span submitted for `c` up to round `k`, with attachments that
were submitted for `c` up to round `k` and addressed to that span. -/
private theorem reportedFor_submitted {cancelable : Bool} {c : CollectId} {rounds : List Round} {k : Nat}
    {recs : List SpanRecord} (hrecs : (reportedFor cancelable c rounds)[k]? = some recs) {rec : SpanRecord}
    (h : rec ∈ recs) : ∃ r ∈ rounds.take (k + 1), ∃ i ∈ r.items c, ∃ anchor, ∃ head ∈ i.heads anchor,
      ∃ ds, rec = head.mount ds ∧ ∀ a ∈ ds, SubmittedIn c (rounds.take (k + 1)) head.spanId a := by
  have hlen := lt_of_reportedFor hrecs
  have hr : rounds[k]? = some rounds[k] := List.getElem?_eq_getElem hlen
  have hmem : rounds[k] ∈ rounds.take (k + 1) := by
    rw [List.take_add_one, hr]
    exact List.mem_append_right _ (List.mem_singleton.2 rfl)
  by_cases hl : ∃ s, LiveFrom c rounds s k
  · obtain ⟨s, hl⟩ := hl
    rw [reportedFor_live cancelable hr hl] at hrecs
    have hrec : rec ∈ ((openState cancelable c (between rounds s k)).receive (rounds[k].items c)).pass
        rounds[k].anchor := by
      split at hrecs
      · cases hrecs; exact h
      · cases hrecs; cases h
    have hwin : ∀ r ∈ between rounds s k, r ∈ rounds.take (k + 1) := by
      intro r hr'
      rw [List.take_add_one]
      exact List.mem_append_left _ (List.mem_of_mem_drop hr')
    have hopen := openState_submitted cancelable c (between rounds s k)
    obtain ⟨r, hr', i, hi, head, hh, ds, he, hds⟩ := recordsOf_submitted
      (l := rounds.take (k + 1)) (fun x a ha => (hopen.1 x a ha).mono hwin)
      (fun i hi => by
        rcases List.mem_append.1 hi with hi | hi
        · obtain ⟨r, hr', hir⟩ := hopen.2 i hi
          exact ⟨r, hwin r hr', hir⟩
        · exact ⟨_, hmem, hi⟩) hrec
    exact ⟨r, hr', i, hi, _, head, hh, ds, he, hds⟩
  · rw [reportedFor_dead cancelable hr fun s hs => hl ⟨s, hs⟩] at hrecs
    have hrec : rec ∈ staleRecords rounds[k].anchor (rounds[k].items c) := by
      split at hrecs
      · cases hrecs; cases h
      · cases hrecs; exact h
    obtain ⟨i, hi, hrec⟩ := List.mem_flatMap.1 hrec
    obtain ⟨r, hr', i', hi', head, hh, ds, he, hds⟩ := recordsOf_submitted (l := rounds.take (k + 1))
      (fun _ _ ha => absurd ha List.not_mem_nil)
      (fun i' (h' : i' ∈ [i]) => ⟨_, hmem, by rw [List.mem_singleton.1 h']; exact hi⟩) hrec
    exact ⟨r, hr', i', hi', _, head, hh, ds, he, hds⟩

/-- Trace isolation.  Two runs that agree, round by round, on what mentions `c` report the same records for `c` in
every round; and an attachment on a record of `c` was submitted in an item of `c` for the span of that record. -/
theorem trace_isolation (cancelable : Bool) (c : CollectId) :
    (∀ rounds rounds' : List Round, List.Forall₂ (SameFor c) rounds rounds' →
      reportedFor cancelable c rounds = reportedFor cancelable c rounds') ∧
    ∀ (rounds : List Round) (k : Nat) (recs : List SpanRecord) (rec : SpanRecord),
      (reportedFor cancelable c rounds)[k]? = some recs → rec ∈ recs →
      ∃ r ∈ rounds.take (k + 1), ∃ i ∈ r.items c, ∃ anchor, ∃ head ∈ i.heads anchor,
        ∃ ds, rec = head.mount ds ∧ ∀ a ∈ ds, SubmittedIn c (rounds.take (k + 1)) head.spanId a := by
  refine ⟨fun rounds rounds' h => ?_, fun rounds k recs rec hrecs h => reportedFor_submitted hrecs h⟩
  rw [reportedFor_eq, reportedFor_eq]
  exact traceOut_congr h cancelable none

/-- A span with a parent in trace `3` and one in trace `4`, which gets an event. -/
def sharedRounds : List Round := [
  ⟨[.startCollect 3, .startCollect 4,
    .submitSpans ⟨.span childEvent, [⟨⟨1⟩, ⟨7⟩, 3, false, true⟩, ⟨⟨2⟩, ⟨7⟩, 4, false, true⟩]⟩,
    .submitSpans ⟨.span childSpan, [⟨⟨1⟩, ⟨5⟩, 3, false, true⟩, ⟨⟨2⟩, ⟨6⟩, 4, false, true⟩]⟩,
    .commitCollect 3, .commitCollect 4], fun i => i.ticks, .stored⟩]

/-- The same with trace `4` cancelled and the event in trace `3` only. -/
def cancelledRounds : List Round := [
  ⟨[.startCollect 4, .dropCollect 4, .startCollect 3,
    .submitSpans ⟨.span childEvent, [⟨⟨1⟩, ⟨7⟩, 3, false, true⟩]⟩,
    .submitSpans ⟨.span childSpan, [⟨⟨1⟩, ⟨5⟩, 3, false, true⟩, ⟨⟨2⟩, ⟨6⟩, 4, false, true⟩]⟩,
    .commitCollect 3], fun i => i.ticks, .stored⟩]

theorem trace_isolation_shared : reportedFor true 3 sharedRounds = reportedFor true 3 cancelledRounds :=
  (trace_isolation true 3).1 _ _ (.cons ⟨by decide, by decide, rfl⟩ .nil)

end Fastrace
