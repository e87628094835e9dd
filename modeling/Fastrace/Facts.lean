import Fastrace.Blocks
import Fastrace.Nesting
import Fastrace.Orderly

/-!
# What submissions ask to be reported

A submission asks for one fact for each of its raw spans and each of its token items (`SubmitSpans.facts`): a record
for a span, an attachment for an event or properties.  Without `cancelable` the records reported are those of the
facts (`reported_false_keys`), and in a whole trace each of them carries what the facts attach to its span
(`WholeTrace.record`).
-/

namespace Fastrace

/-! ### Facts of a submission -/

def Item.fact (i : Item) (raw : RawSpan) : Fact :=
  match raw.rawKind with
  | .span => .record ⟨i.traceId, raw.id, i.parentOf raw⟩ (raw.properties.getD [])
  | _ => .attached i.traceId (i.parentOf raw) (raw.dangling fun _ => 0)

def Item.facts (i : Item) : List Fact := i.spans.raws.map i.fact

def SubmitSpans.facts (cmd : SubmitSpans) : List Fact :=
  cmd.collectToken.flatMap fun item => (itemOf cmd.spans item).facts

theorem fact_of_span (i : Item) {raw : RawSpan} (hkind : raw.rawKind = .span) :
    i.fact raw = .record ⟨i.traceId, raw.id, i.parentOf raw⟩ (raw.properties.getD []) := by
  unfold Item.fact
  rw [hkind]

theorem fact_of_attachment (i : Item) {raw : RawSpan} (hkind : raw.rawKind ≠ .span) :
    i.fact raw = .attached i.traceId (i.parentOf raw) (raw.dangling fun _ => 0) := by
  unfold Item.fact
  split
  · rename_i hspan
    exact absurd hspan hkind
  · rfl

private theorem key?_fact (i : Item) (raw : RawSpan) : (i.fact raw).key? =
    if raw.rawKind = .span then some ⟨i.traceId, raw.id, i.parentOf raw⟩ else none := by
  by_cases hkind : raw.rawKind = .span
  · rw [fact_of_span i hkind, if_pos hkind]
    rfl
  · rw [fact_of_attachment i hkind, if_neg hkind]
    rfl

private theorem keys_of_facts (i : Item) : i.facts.filterMap Fact.key? = i.keys := by
  unfold Item.facts Item.keys
  rw [List.filterMap_map]
  induction i.spans.raws with
  | nil => rfl
  | cons raw raws ih =>
    rw [List.filterMap_cons, ih, Function.comp_apply, key?_fact]
    by_cases hkind : raw.rawKind = .span
    · simp [hkind]
    · simp [hkind]

/-- What the facts of an item attach to a span, in the trace of the item. -/
private theorem attachedTo_of_facts (i : Item) (x : SpanId) :
    i.facts.filterMap (Fact.attachedTo? i.traceId x) = keyed (i.attachments fun _ => 0) x := by
  rw [keyed_item]
  unfold Item.facts
  rw [List.filterMap_map]
  induction i.spans.raws with
  | nil => rfl
  | cons raw raws ih =>
    rw [List.filterMap_cons, ih, Function.comp_apply]
    by_cases hkind : raw.rawKind = .span
    · rw [fact_of_span i hkind]
      simp [Fact.attachedTo?, hkind]
    · rw [fact_of_attachment i hkind]
      by_cases hx : i.parentOf raw = x
      · simp [Fact.attachedTo?, hkind, hx]
      · simp [Fact.attachedTo?, hkind, hx]

private theorem attachedTo_other {i : Item} {traceId : TraceId} (htrace : i.traceId ≠ traceId) (x : SpanId) :
    i.facts.filterMap (Fact.attachedTo? traceId x) = [] := by
  rw [List.filterMap_eq_nil_iff]
  intro fact hfact
  obtain ⟨raw, -, rfl⟩ := List.mem_map.1 hfact
  by_cases hkind : raw.rawKind = .span
  · rw [fact_of_span i hkind]
    rfl
  · rw [fact_of_attachment i hkind, Fact.attachedTo?, if_neg]
    exact fun h => htrace h.1

/-- What a submission attaches to a span in a trace: the items of that trace have the collect id `c`. -/
theorem attachedTo_of_submission {cmd : SubmitSpans} {c : CollectId} {traceId : TraceId}
    (htrace : ∀ item ∈ cmd.collectToken, item.collectId = c ↔ item.traceId = traceId) (x : SpanId) :
    cmd.facts.filterMap (Fact.attachedTo? traceId x) =
      ((cmd.collectToken.filter (·.collectId = c)).map (itemOf cmd.spans)).flatMap fun i =>
        keyed (i.attachments fun _ => 0) x := by
  rw [SubmitSpans.facts, List.filterMap_flatMap]
  generalize cmd.collectToken = token at htrace
  induction token with
  | nil => rfl
  | cons item token ih =>
    rw [List.forall_mem_cons] at htrace
    rw [List.flatMap_cons, ih htrace.2]
    by_cases hitem : item.collectId = c
    · have hsame : (itemOf cmd.spans item).traceId = traceId := htrace.1.1 hitem
      rw [List.filter_cons_of_pos (by simpa using hitem), List.map_cons, List.flatMap_cons, ← hsame,
        attachedTo_of_facts]
    · have hother : (itemOf cmd.spans item).traceId ≠ traceId := fun he => hitem (htrace.1.2 he)
      rw [List.filter_cons_of_neg (by simpa using hitem), attachedTo_other hother, List.nil_append]

theorem keys_of_submission (cmd : SubmitSpans) : cmd.facts.filterMap Fact.key? = cmd.keys := by
  unfold SubmitSpans.facts SubmitSpans.keys
  rw [List.filterMap_flatMap]
  exact List.flatMap_congr fun item _ => keys_of_facts _

theorem recordIds_of_keys (facts : List Fact) :
    facts.filterMap Fact.recordId? = (facts.filterMap Fact.key?).map fun key => (key.traceId, key.spanId) := by
  rw [List.map_filterMap]
  refine List.filterMap_congr fun fact _ => ?_
  cases fact <;> rfl

/-- A span without properties is a record in the trace of each item. -/
theorem facts_of_span {raw : RawSpan} (hkind : raw.rawKind = .span) (hproperties : raw.properties = none)
    (token : CollectToken) : SubmitSpans.facts ⟨.span raw, token⟩ =
      token.map fun item => .record ⟨item.traceId, raw.id, item.parentId⟩ [] := by
  unfold SubmitSpans.facts
  rw [List.map_eq_flatMap]
  refine List.flatMap_congr fun item _ => ?_
  change [(itemOf (.span raw) item).fact raw] = _
  rw [fact_of_span _ hkind, hproperties]
  rfl

/-! ### Facts of a line -/

/-- An entry of a line whose token has the item. -/
def localFact (item : CollectTokenItem) (raw : RawSpan) : Fact :=
  (itemOf (.localSpansInner ⟨[], .zero⟩) item).fact raw

/-- What the line asks for when it is submitted. -/
def SpanLine.facts (line : SpanLine) : List Fact :=
  line.collectToken.elim [] fun token => token.flatMap fun item => line.spanQueue.spanQueue.map (localFact item)

theorem facts_of_line (spans : List RawSpan) (now : Instant) (token : CollectToken) :
    SubmitSpans.facts ⟨.localSpansInner ⟨spans, now⟩, token⟩ =
      token.flatMap fun item => spans.map (localFact item) := rfl

theorem localFact_endWith (item : CollectTokenItem) (raw : RawSpan) (now : Instant) :
    localFact item (raw.endWith now) = localFact item raw := rfl

/-- One entry more. -/
theorem facts_push {line line' : SpanLine} {token : CollectToken} (htoken : line.collectToken = some token)
    (htoken' : line'.collectToken = some token) {raw : RawSpan}
    (hqueue : line'.spanQueue.spanQueue = line.spanQueue.spanQueue ++ [raw]) :
    line'.facts.Perm (line.facts ++ token.map fun item => localFact item raw) := by
  unfold SpanLine.facts
  rw [htoken, htoken', hqueue]
  simp only [Option.elim_some, List.map_append, List.map_singleton]
  refine (List.flatMap_append_perm token _ _).symm.trans (List.Perm.of_eq ?_)
  rw [List.map_eq_flatMap]

/-- The end of a local span changes no fact. -/
theorem facts_closed (line : SpanLine) (raw : RawSpan) (now : Instant) (new : List RawSpan) :
    (line.grow (raw.endWith now :: new)).facts = ((line.opened raw).grow new).facts := by
  unfold SpanLine.facts SpanLine.grow SpanLine.opened
  simp only [List.map_append, List.map_cons, localFact_endWith, List.append_assoc, List.singleton_append]

/-! ### What is reported -/

/-- The record of a span in a whole trace: it is that of an item, and all that is attached to the span is on it. -/
theorem WholeTrace.record {c : CollectId} {rounds : List Round} (h : WholeTrace c rounds) {r : SpanRecord}
    (hr : r ∈ (reportedFor false c rounds).flatten) :
    ∃ i ∈ itemsFor c (received rounds), ∃ raw ∈ i.spans.raws, raw.rawKind = .span ∧ r.traceId = i.traceId ∧
      r.spanId = raw.id ∧
      r.properties = raw.properties.getD [] ++ ((itemsFor c (received rounds)).flatMap fun i =>
        keyed (i.attachments fun _ => 0) r.spanId).flatMap DanglingItem.props ∧
      r.events.map EventRecord.eraseTimes = ((itemsFor c (received rounds)).flatMap fun i =>
        keyed (i.attachments fun _ => 0) r.spanId).flatMap DanglingItem.events := by
  have hmem := List.mem_map_of_mem (f := SpanRecord.eraseTimes) hr
  rw [h.eraseTimes false] at hmem
  obtain ⟨head, hhead, heq⟩ := List.mem_map.1 hmem
  obtain ⟨t, ht, hhead⟩ := List.mem_flatMap.1 hhead
  obtain ⟨i, hi, rfl⟩ := List.mem_map.1 ht
  obtain ⟨raw, hraw, rfl⟩ := List.mem_map.1 hhead
  obtain ⟨hraw, hkind⟩ := List.mem_filter.1 hraw
  have hid : raw.id = r.spanId := congrArg SpanRecord.spanId heq
  have hkeyed : keyed (attachments (timed (fun _ => 0) (itemsFor c (received rounds)))) raw.id =
      (itemsFor c (received rounds)).flatMap fun i => keyed (i.attachments fun _ => 0) r.spanId := by
    rw [keyed_attachments, timed, List.flatMap_map, hid]
  refine ⟨i, hi, raw, hraw, by simpa using hkind, (congrArg SpanRecord.traceId heq).symm, hid.symm, ?_, ?_⟩
  · rw [← hkeyed]
    exact (congrArg SpanRecord.properties heq).symm
  · rw [← hkeyed]
    exact (congrArg SpanRecord.events heq).symm

end Fastrace
