import Fastrace.QueueForest
import Fastrace.TreeShape

/-!
# Trees of raw spans and of records

The raw spans of a queue link backwards, so every one of them is reached from the root and `from_raw_spans` shows the
queue (`fromRawSpans_of_run`).  `from_span_records` is particular about its input: it panics on a record whose parent
is not among the records, and unless one record is at the top (`fromSpanRecords_iff`).
-/

namespace Fastrace.Tree

private theorem ids_rawRow (raws : List RawSpan) : ids (raws.map rawRow) = raws.map (·.id) := List.map_map

theorem ids_recordRow (records : List SpanRecord) : ids (records.map recordRow) = records.map SpanRecord.spanId :=
  List.map_map

/-- From a link to the next, back to the root. -/
private theorem rooted_of_linkedBack {raws : List RawSpan} (h : SpanQueue.LinkedBack raws) :
    Rooted (raws.map rawRow) := by
  have hback : ∀ (n i : Nat) (raw : RawSpan), i < n → raws[i]? = some raw →
      Relation.ReflTransGen (fun p x => x ∈ childrenOf (raws.map rawRow) p) default raw.id := by
    intro n
    induction n with
    | zero => exact fun i raw hlt => absurd hlt (Nat.not_lt_zero i)
    | succ n ih =>
      intro i raw hlt hraw
      have hchild : raw.id ∈ childrenOf (raws.map rawRow) raw.parentId :=
        mem_childrenOf.2 ⟨rawRow raw, List.mem_map_of_mem (List.mem_of_getElem? hraw), rfl, rfl⟩
      rcases h i raw hraw with hroot | ⟨j, hj, parent, hparent, hid, -⟩
      · exact .single (hroot ▸ hchild)
      · exact (ih j parent (by omega) hparent).tail (hid.symm ▸ hchild)
  intro row hrow
  obtain ⟨raw, hraw, rfl⟩ := List.mem_map.1 hrow
  obtain ⟨i, hi⟩ := List.mem_iff_getElem?.1 hraw
  exact hback (i + 1) i raw (Nat.lt_succ_self i) hi

/-- Whatever has been called on a span queue, with ids that are not zero and not drawn twice: `from_raw_spans` returns
on the raw spans in any order, and its trees hold every raw span once, under its parent. -/
theorem fromRawSpans_of_run {capacity : Nat} {calls : List QueueRun.Call} {s : QueueRun}
    (hnodup : (QueueRun.drawn calls).Nodup) (hnonzero : default ∉ QueueRun.drawn calls)
    (hrun : Steps.run QueueRun.step (QueueRun.init capacity) calls = some s) {depth : Nat}
    (hdepth : s.queue.spanQueue.length < depth) :
    ∃ trees, Shows (s.queue.spanQueue.map rawRow) trees ∧
      ∀ rawSpans, rawSpans.Perm s.queue.spanQueue → fromRawSpans depth rawSpans = some trees := by
  have hwf := QueueRun.wf_of_run hrun
  have hdistinct : DistinctIds (s.queue.spanQueue.map rawRow) := by
    constructor
    case nodup =>
      rw [ids_rawRow]
      exact (hwf.ids.nodup_iff.2 hnodup).of_append_left
    case nonzero =>
      rw [ids_rawRow]
      exact fun hmem => hnonzero (hwf.ids.subset (List.mem_append_left _ hmem))
  have hrowsDepth : (s.queue.spanQueue.map rawRow).length < depth := by rwa [List.length_map]
  obtain ⟨t, ht, hshows⟩ := ofRows_shows hdistinct (rooted_of_linkedBack hwf.linked.back) hrowsDepth
  refine ⟨t.children, hshows, fun rawSpans hperm => ?_⟩
  have hrows := ofRows_perm hdistinct (hperm.symm.map rawRow) depth
  rw [fromRawSpans, ← hrows, ht]
  rfl

/-- A local span with two children, the first of which is finished last, and an event in between. -/
def siblings : List QueueRun.Call := [
  .startSpan ⟨1⟩ ⟨1⟩ "outer", .startSpan ⟨2⟩ ⟨2⟩ "left", .finishSpan ⟨1⟩ ⟨3⟩, .addEvent ⟨3⟩ ⟨4⟩ ⟨"event", none⟩,
  .startSpan ⟨4⟩ ⟨5⟩ "right", .finishSpan ⟨3⟩ ⟨6⟩, .finishSpan ⟨0⟩ ⟨7⟩]

theorem fromRawSpans_siblings : ∃ trees,
    Shows (((Steps.run QueueRun.step (QueueRun.init 8) siblings).getD (QueueRun.init 8)).queue.spanQueue.map rawRow)
        trees ∧
      ∀ rawSpans : List RawSpan,
        rawSpans.Perm ((Steps.run QueueRun.step (QueueRun.init 8) siblings).getD (QueueRun.init 8)).queue.spanQueue →
          fromRawSpans 5 rawSpans = some trees :=
  have hrun : Steps.run QueueRun.step (QueueRun.init 8) siblings =
      some ((Steps.run QueueRun.step (QueueRun.init 8) siblings).getD (QueueRun.init 8)) :=
    Steps.run_eq_getD (by decide)
  fromRawSpans_of_run (by decide) (by decide) hrun (by decide)

/-! ### Records -/

/-- For records with ids of their own and room for the calls: `from_span_records` returns exactly when the parent of
every record is `SpanId::default()` or the id of a record, and one record is at the top; and for records in another
order it returns the same tree, or panics as well. -/
theorem fromSpanRecords_iff {records : List SpanRecord} (hnodup : (records.map SpanRecord.spanId).Nodup)
    (hnonzero : default ∉ records.map SpanRecord.spanId) {depth : Nat} (hdepth : records.length < depth) :
    ((fromSpanRecords depth records).isSome = true ↔
        (∀ r ∈ records, r.parentId = default ∨ ∃ r' ∈ records, r'.spanId = r.parentId) ∧
          (records.filter (·.parentId = default)).length = 1) ∧
      ∀ records', records'.Perm records → fromSpanRecords depth records' = fromSpanRecords depth records := by
  have hdistinct : DistinctIds (records.map recordRow) :=
    ⟨ids_recordRow records ▸ hnodup, ids_recordRow records ▸ hnonzero⟩
  have hlinked : Linked (records.map recordRow) ↔
      ∀ r ∈ records, r.parentId = default ∨ ∃ r' ∈ records, r'.spanId = r.parentId := by
    unfold Linked
    rw [List.forall_mem_map, ids_recordRow]
    simp only [List.mem_map, recordRow]
  have htop : (childrenOf (records.map recordRow) default).length =
      (records.filter (·.parentId = default)).length := by
    rw [childrenOf, List.length_map, List.filter_map, List.length_map]
    rfl
  have hrowsDepth : (records.map recordRow).length < depth := by rwa [List.length_map]
  refine ⟨?_, fun records' hperm => ?_⟩
  · rw [← hlinked, ← htop, ← ofRows_isSome_iff hdistinct hrowsDepth, fromSpanRecords]
    cases ht : ofRows depth (records.map recordRow) with
    | none => simp
    | some t =>
      rw [← length_children_of_ofRows hdistinct ht, Option.bind_some, onlyChild]
      rcases t.children with _ | ⟨child, _ | ⟨child', children⟩⟩ <;> simp
  · rw [fromSpanRecords, fromSpanRecords, ofRows_perm hdistinct (hperm.symm.map recordRow)]

/-- A record under the id and the parent. -/
def recordOf (id parentId : SpanId) (name : String) : SpanRecord := ⟨⟨1⟩, id, parentId, 0, 0, name, [], []⟩

/-- Two records that are each other's parent panic nowhere and are not in the tree. -/
theorem fromSpanRecords_cycle :
    let records := [recordOf ⟨1⟩ ⟨0⟩ "root", recordOf ⟨2⟩ ⟨3⟩ "a", recordOf ⟨3⟩ ⟨2⟩ "b"]
    ((fromSpanRecords 4 records).isSome = true ↔
        (∀ r ∈ records, r.parentId = default ∨ ∃ r' ∈ records, r'.spanId = r.parentId) ∧
          (records.filter (·.parentId = default)).length = 1) ∧
      (fromSpanRecords 4 records).map (fun t => (t.name, t.children.length)) = some ("root", 0) :=
  ⟨(fromSpanRecords_iff (by decide) (by decide) (by decide)).1, by decide⟩

end Fastrace.Tree
