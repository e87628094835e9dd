import Fastrace.SetTrees

/-!
# Local spans without the collector

`LocalSpans::to_span_records` turns local spans into records at once.  Its documentation says that the records appear
as if the spans had been collected within the given parent context.  They do: a trace that is given nothing but one set
of local spans is reported as `to_span_records` has it, with the anchor of the call that reports it
(`toSpanRecords_as_collected`).  A trace that `handle_commands` does not know is reported in the same way, by the
path for stale spans.
-/

namespace Fastrace

/-- The local spans of a set that is no single span. -/
def SpanSet.localSpans? : SpanSet → Option LocalSpansInner
  | .span _ => none
  | .localSpansInner localSpans => some localSpans
  | .sharedLocalSpans localSpans => some localSpans

/-- `to_span_records` is a pass over one item that finds nothing waiting. -/
private theorem toSpanRecords_eq {spans : SpanSet} {localSpans : LocalSpansInner}
    (hspans : spans.localSpans? = some localSpans)
    (item : CollectTokenItem) (anchor : Anchor) :
    localSpans.toSpanRecords item.traceId item.parentId anchor =
      recordsOf (fun _ => []) [(anchor, itemOf spans item)] := by
  have hpass := postprocess_records [.owned spans item.traceId item.parentId] anchor [] HashMap.empty
  rw [List.nil_append] at hpass
  cases spans with
  | span rawSpan => cases hspans
  | localSpansInner localSpans =>
    cases hspans
    exact hpass
  | sharedLocalSpans localSpans =>
    cases hspans
    exact hpass

/-! ### Calls that receive nothing for the trace -/

variable {c : CollectId} {cancelable : Bool} {st : Option TraceState} {round : Round} {rounds : List Round} {i : Item}

/-- The collector of the trace, if there is one, has no items. -/
def TraceState.NoItems (st : Option TraceState) : Prop := ∀ t, st = some t → t.items = []

/-- Nothing has come for the trace yet. -/
def TraceState.Untouched (st : Option TraceState) : Prop := ∀ t, st = some t → t.Idle

private theorem noItems_none : TraceState.NoItems none := fun t ht => by cases ht

private theorem untouched_none : TraceState.Untouched none := fun t ht => by cases ht

private theorem recordsOf_nothing (d : Waiting) (anchor : Anchor) :
    recordsOf d (timed anchor []) = [] ∧ leftover d (timed anchor []) = d := by
  refine ⟨rfl, funext fun x => ?_⟩
  rw [leftover, if_neg (fun h => by cases h)]
  exact List.append_nil _

/-- The collector after a quiet call has waiting what it had before, or nothing. -/
private theorem entered_quiet {t : TraceState} (hitems : round.items c = []) (h : entered c st round = some t) :
    (t.items = [] ∧ ∀ x, t.waiting x = []) ∨ st = some t := by
  obtain ⟨-, ⟨-, rfl⟩ | ⟨-, t', rfl, rfl⟩⟩ := entered_eq_some.1 h
  · exact Or.inl ⟨hitems, fun _ => rfl⟩
  · rw [hitems, receive_nil]
    exact Or.inr rfl

private theorem traceStep_quiet (cancelable : Bool) (hitems : round.items c = []) (hst : TraceState.NoItems st) :
    (traceStep cancelable c st round).2 = [] ∧ TraceState.NoItems (traceStep cancelable c st round).1 ∧
      (TraceState.Untouched st → TraceState.Untouched (traceStep cancelable c st round).1) := by
  unfold traceStep
  cases hentered : entered c st round with
  | none =>
    refine ⟨?_, noItems_none, fun _ => untouched_none⟩
    simp only [hitems, staleRecords, List.flatMap_nil, ite_self]
  | some t =>
    have hempty : t.items = [] := (entered_quiet hitems hentered).elim And.left (hst t)
    have hpass : t.pass round.anchor = [] := by rw [TraceState.pass, hempty]; rfl
    have hidle : TraceState.Untouched st → ∀ x, t.waiting x = [] := fun h =>
      (entered_quiet hitems hentered).elim And.right fun heq => (h t heq).2
    simp only [hpass, hempty, (recordsOf_nothing t.waiting round.anchor).2]
    split
    · exact ⟨rfl, noItems_none, fun _ => untouched_none⟩
    · split
      · refine ⟨rfl, fun t' ht' => ?_, fun h t' ht' => ?_⟩
        · cases ht'
          exact hempty
        · cases ht'
          exact ⟨hempty, hidle h⟩
      · refine ⟨rfl, fun t' ht' => ?_, fun h t' ht' => ?_⟩
        · cases ht'
          rfl
        · cases ht'
          exact ⟨rfl, hidle h⟩

private theorem traceOut_quiet (hitems : ∀ r ∈ rounds, r.items c = []) (hst : TraceState.NoItems st) :
    (traceOut cancelable c st rounds).flatten = [] := by
  induction rounds generalizing st with
  | nil => rfl
  | cons r rounds ih =>
    rw [List.forall_mem_cons] at hitems
    obtain ⟨hreported, hnext, -⟩ := traceStep_quiet cancelable hitems.1 hst
    rw [traceOut, List.flatten_cons, hreported, List.nil_append, ih hitems.2 hnext]

/-! ### The call that receives the item -/

/-- The collector has just the item. -/
def TraceState.Holds (t : TraceState) (i : Item) : Prop := t.items = [i] ∧ ∀ x, t.waiting x = []

private theorem TraceState.Holds.pass {t : TraceState} (h : t.Holds i) (anchor : Anchor) :
    t.pass anchor = recordsOf (fun _ => []) [(anchor, i)] := by
  have hwaiting : t.waiting = fun _ => [] := funext h.2
  rw [TraceState.pass, h.1, hwaiting]
  rfl

private theorem entered_item {t : TraceState} (hitems : round.items c = [i]) (hst : TraceState.Untouched st)
    (h : entered c st round = some t) : t.Holds i := by
  obtain ⟨-, ⟨-, rfl⟩ | ⟨-, t', ht', rfl⟩⟩ := entered_eq_some.1 h
  · exact ⟨hitems, fun _ => rfl⟩
  · obtain ⟨hempty, hwaiting⟩ := hst t' ht'
    exact ⟨by rw [TraceState.receive, hempty, hitems, List.nil_append], hwaiting⟩

private theorem traceStep_item (hitems : round.items c = [i]) (hst : TraceState.Untouched st) :
    (traceStep false c st round).2 = recordsOf (fun _ => []) [(round.anchor, i)] ∧
      TraceState.NoItems (traceStep false c st round).1 := by
  unfold traceStep
  cases hentered : entered c st round with
  | none =>
    refine ⟨?_, noItems_none⟩
    simp only [hitems, staleRecords, Bool.false_eq_true, if_false, List.flatMap_singleton]
  | some t =>
    simp only [(entered_item hitems hst hentered).pass, Bool.false_eq_true, if_false]
    split
    · exact ⟨rfl, noItems_none⟩
    · refine ⟨rfl, fun t' ht' => ?_⟩
      cases ht'
      rfl

/-- With `cancelable` the item is kept, reported at a commit, or lost. -/
private theorem traceStep_holding {t : TraceState} (hentered : entered c st round = some t) (ht : t.Holds i) :
    (traceStep true c st round).2 = [] ∧ (traceStep true c st round).1 = some t ∨
      round.commits c ∧ (traceStep true c st round).2 = recordsOf (fun _ => []) [(round.anchor, i)] ∧
        (traceStep true c st round).1 = none := by
  unfold traceStep
  simp only [hentered, ht.pass, if_true]
  split
  · exact Or.inr ⟨‹_›, rfl, rfl⟩
  · exact Or.inl ⟨rfl, rfl⟩

private theorem traceOut_holding (hitems : ∀ r ∈ rounds, r.items c = []) {t : TraceState} (ht : t.Holds i) :
    (traceOut true c (some t) rounds).flatten = [] ∨ ∃ r ∈ rounds, r.commits c ∧
      (traceOut true c (some t) rounds).flatten = recordsOf (fun _ => []) [(r.anchor, i)] := by
  induction rounds with
  | nil => exact Or.inl rfl
  | cons r rounds ih =>
    rw [List.forall_mem_cons] at hitems
    rw [traceOut, List.flatten_cons]
    cases hentered : entered c (some t) r with
    | none =>
      have hstep : traceStep true c (some t) r = (none, []) := by
        unfold traceStep
        simp only [hentered, if_true]
      rw [hstep, traceOut_quiet hitems.2 noItems_none]
      exact Or.inl rfl
    | some t' =>
      rcases entered_quiet hitems.1 hentered with ⟨hempty, -⟩ | heq
      · -- the trace has been started anew, and the item is gone
        have hnone : (traceStep true c (some t) r).2 = [] ∧
            TraceState.NoItems (traceStep true c (some t) r).1 := by
          unfold traceStep
          have hpass : t'.pass r.anchor = [] := by rw [TraceState.pass, hempty]; rfl
          simp only [hentered, hpass, if_true]
          split
          · exact ⟨rfl, noItems_none⟩
          · refine ⟨rfl, fun t'' ht'' => ?_⟩
            cases ht''
            exact hempty
        rw [hnone.1, traceOut_quiet hitems.2 hnone.2]
        exact Or.inl rfl
      · cases heq
        rcases traceStep_holding hentered ht with ⟨hreported, hnext⟩ | ⟨hcommits, hreported, hnext⟩
        · rw [hreported, hnext, List.nil_append]
          rcases ih hitems.2 with hout | ⟨r', hr', hcommits, hout⟩
          · exact Or.inl hout
          · exact Or.inr ⟨r', List.mem_cons_of_mem _ hr', hcommits, hout⟩
        · rw [hreported, hnext, traceOut_quiet hitems.2 noItems_none, List.append_nil]
          exact Or.inr ⟨r, List.mem_cons_self .., hcommits, rfl⟩

/-! ### The whole run -/

/-- A run that receives one item for the trace, from a collector to which nothing has come. -/
private theorem traceOut_item (hitems : rounds.flatMap (·.items c) = [i]) (hst : TraceState.Untouched st) :
    (∃ r ∈ rounds, i ∈ r.items c ∧
      (traceOut false c st rounds).flatten = recordsOf (fun _ => []) [(r.anchor, i)]) ∧
    ((traceOut true c st rounds).flatten = [] ∨ ∃ r ∈ rounds, r.commits c ∧
      (traceOut true c st rounds).flatten = recordsOf (fun _ => []) [(r.anchor, i)]) := by
  induction rounds generalizing st with
  | nil => cases hitems
  | cons r rounds ih =>
    rw [List.flatMap_cons] at hitems
    rcases List.append_eq_singleton_iff.1 hitems with ⟨hquiet, hlater⟩ | ⟨hitem, hlater⟩
    · -- nothing yet
      obtain ⟨hreported, -, hnext⟩ := traceStep_quiet false hquiet fun t ht => (hst t ht).1
      obtain ⟨hreported', -, hnext'⟩ := traceStep_quiet true hquiet fun t ht => (hst t ht).1
      obtain ⟨⟨r', hr', hi, hout⟩, -⟩ := ih hlater (hnext hst)
      have hcancelable := (ih hlater (hnext' hst)).2
      rw [traceOut, List.flatten_cons, hreported, List.nil_append, traceOut, List.flatten_cons, hreported',
        List.nil_append]
      refine ⟨⟨r', List.mem_cons_of_mem _ hr', hi, hout⟩, hcancelable.imp_right ?_⟩
      rintro ⟨r', hr', h⟩
      exact ⟨r', List.mem_cons_of_mem _ hr', h⟩
    · have hquiet : ∀ r ∈ rounds, r.items c = [] := List.flatMap_eq_nil_iff.1 hlater
      obtain ⟨hreported, hnext⟩ := traceStep_item hitem hst
      refine ⟨⟨r, List.mem_cons_self .., by rw [hitem]; exact List.mem_singleton_self i, ?_⟩, ?_⟩
      · rw [traceOut, List.flatten_cons, hreported, traceOut_quiet hquiet hnext, List.append_nil]
      rw [traceOut, List.flatten_cons]
      cases hentered : entered c st r with
      | none =>
        have hstep : traceStep true c st r = (none, []) := by
          unfold traceStep
          simp only [hentered, if_true]
        rw [hstep, traceOut_quiet hquiet noItems_none]
        exact Or.inl rfl
      | some t =>
        have hholds := entered_item hitem hst hentered
        rcases traceStep_holding hentered hholds with ⟨hreported, hnext⟩ | ⟨hcommits, hreported, hnext⟩
        · rw [hreported, hnext, List.nil_append]
          refine (traceOut_holding hquiet hholds).imp_right ?_
          rintro ⟨r', hr', h⟩
          exact ⟨r', List.mem_cons_of_mem _ hr', h⟩
        · rw [hreported, hnext, traceOut_quiet hquiet noItems_none, List.append_nil]
          exact Or.inr ⟨r, List.mem_cons_self .., hcommits, rfl⟩

/-- A trace to which one set of local spans is submitted, by the drop of a guard or by `push_child_spans`, in whatever
rounds the other commands come, and whatever becomes of other traces.  Without `cancelable` the trace is reported as
`to_span_records` has the local spans under the parent of the item, with the anchor of the round that receives them;
with `cancelable` it is so reported at a commit, or not at all. -/
theorem toSpanRecords_as_collected {spans : SpanSet} {localSpans : LocalSpansInner} {item : CollectTokenItem}
    (hspans : spans.localSpans? = some localSpans)
    (honly : rounds.flatMap (fun r => submissionsFor c r.commands) = [(spans, item)]) :
    (∃ r ∈ rounds, (spans, item) ∈ submissionsFor c r.commands ∧ (reportedFor false c rounds).flatten =
      localSpans.toSpanRecords item.traceId item.parentId r.anchor) ∧
    ((reportedFor true c rounds).flatten = [] ∨ ∃ r ∈ rounds, r.commits c ∧ (reportedFor true c rounds).flatten =
      localSpans.toSpanRecords item.traceId item.parentId r.anchor) := by
  have hitems : rounds.flatMap (·.items c) = [itemOf spans item] := by
    have hmap := congrArg (List.map fun p : SpanSet × CollectTokenItem => itemOf p.1 p.2) honly
    rwa [List.map_flatMap] at hmap
  have hreceives : ∀ r ∈ rounds, itemOf spans item ∈ r.items c → (spans, item) ∈ submissionsFor c r.commands := by
    intro r hr hmem
    obtain ⟨p, hp, -⟩ := List.mem_map.1 hmem
    have honlyp : p ∈ rounds.flatMap fun r => submissionsFor c r.commands := List.mem_flatMap.2 ⟨r, hr, hp⟩
    rw [honly, List.mem_singleton] at honlyp
    exact honlyp ▸ hp
  simp only [reportedFor_eq, toSpanRecords_eq hspans]
  obtain ⟨⟨r, hr, hmem, hout⟩, hcancelable⟩ := traceOut_item hitems untouched_none
  exact ⟨⟨r, hr, hreceives r hr hmem, hout⟩, hcancelable⟩

/-! ### Local spans with an event pushed to a span -/

/-- What a local collector has collected. -/
def collectedSpans : LocalSpansInner where
  spans := [spanOf ⟨4⟩ ⟨0⟩ "outer", { spanOf ⟨5⟩ ⟨4⟩ "event" with rawKind := .event }, spanOf ⟨6⟩ ⟨4⟩ "inner"]
  endTime := ⟨9⟩

/-- The child of the root to which they are pushed. -/
def pushedTo : SpanInner := ⟨spanOf ⟨3⟩ ⟨0⟩ "child", [⟨⟨1⟩, ⟨2⟩, 0, false, true⟩], none⟩

/-- They arrive before the start of the trace, and are reported by themselves. -/
def pushedRounds : List Round := [
  ⟨pushedTo.pushChildSpans collectedSpans, fun i => i.ticks, .stored⟩,
  ⟨[.startCollect 0, .commitCollect 0], fun i => i.ticks, .stored⟩]

theorem toSpanRecords_as_collected_pushed :
    (∃ r ∈ pushedRounds, (.sharedLocalSpans collectedSpans, ⟨⟨1⟩, ⟨3⟩, 0, false, true⟩) ∈
        submissionsFor 0 r.commands ∧ (reportedFor false 0 pushedRounds).flatten =
      collectedSpans.toSpanRecords ⟨1⟩ ⟨3⟩ r.anchor) ∧
    (reportedFor false 0 pushedRounds).flatten.map (fun r => (r.name, r.events.length)) =
      [("outer", 1), ("inner", 0)] :=
  have honly : pushedRounds.flatMap (fun r => submissionsFor 0 r.commands) =
      [(.sharedLocalSpans collectedSpans, ⟨⟨1⟩, ⟨3⟩, 0, false, true⟩)] := by decide
  ⟨(toSpanRecords_as_collected rfl honly).1, by decide⟩

end Fastrace
