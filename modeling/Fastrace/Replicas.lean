import Fastrace.Delivery
import Fastrace.Cancelable
import Fastrace.Ownership
import Mathlib.Data.List.Flatten

/-!
# Replicas

A span whose token has several items is reported once for each of them.  Replicas of one span differ in their
`SpanRecord.key`: the trace, the span and the parent.  The keys of what a run of the collector reports are among the
keys of the submissions it has received (`reported_keys`), so no key is reported twice unless the submissions repeat
one.

`Span::enter_with_parents` takes over every item of every parent.  A span with two items in one trace is fine, since
the items name two parents; but its children get both items with the span itself as the parent in both, and are
reported twice with one key, and so are the local spans under it (`child_of_join_reported_twice`).  As long as no span
with two items in one trace becomes a parent, no key is reported twice (`no_duplicate_records`).
-/

namespace Fastrace

/-- What tells the replicas of spans apart. -/
structure RecordKey where
  traceId : TraceId
  spanId : SpanId
  parentId : SpanId
deriving DecidableEq, Repr

def SpanRecord.key (r : SpanRecord) : RecordKey := ⟨r.traceId, r.spanId, r.parentId⟩

def Item.keys (i : Item) : List RecordKey :=
  (i.spans.raws.filter (·.rawKind = .span)).map fun raw => ⟨i.traceId, raw.id, i.parentOf raw⟩

/-- The keys of the records a submission calls for. -/
def SubmitSpans.keys (cmd : SubmitSpans) : List RecordKey :=
  cmd.collectToken.flatMap fun item => (itemOf cmd.spans item).keys

private theorem heads_keys (anchor : Anchor) (i : Item) : (i.heads anchor).map SpanRecord.key = i.keys := by
  simp [Item.heads, Item.keys, Item.record, SpanRecord.key]

theorem subperm_flatMap {α β : Type} {l l' : List α} (h : l.Subperm l') (f : α → List β) :
    (l.flatMap f).Subperm (l'.flatMap f) := by
  obtain ⟨l₁, hperm, hsub⟩ := h
  exact ⟨l₁.flatMap f, hperm.flatMap_right f, hsub.flatMap f⟩

theorem subperm_map {α β : Type} {l l' : List α} (h : l.Subperm l') (f : α → β) :
    (l.map f).Subperm (l'.map f) := by
  obtain ⟨l₁, hperm, hsub⟩ := h
  exact ⟨l₁.map f, hperm.map f, hsub.map f⟩

theorem subperm_submitSpans {cmds cmds' : List CollectCommand} (h : cmds.Subperm cmds') :
    (submitSpans cmds).Subperm (submitSpans cmds') := by
  obtain ⟨l₁, hperm, hsub⟩ := h
  exact ⟨submitSpans l₁, hperm.filterMap _, hsub.filterMap _⟩

/-! ### The keys a run reports -/

private theorem heads_timed_keys (anchor : Anchor) (items : List Item) :
    (heads (timed anchor items)).map SpanRecord.key = items.flatMap Item.keys := by
  simp [heads, timed, List.map_flatMap, List.flatMap_map, heads_keys]

private theorem recordsOf_keys (d : Waiting) (ts : List TimedItem) :
    (recordsOf d ts).map SpanRecord.key = (heads ts).map SpanRecord.key := by
  have h := congrArg (List.map SpanRecord.key) (recordsOf_bare d ts)
  rwa [List.map_map, List.map_map] at h

private theorem staleRecords_keys (anchor : Anchor) (items : List Item) :
    (staleRecords anchor items).map SpanRecord.key = items.flatMap Item.keys := by
  unfold staleRecords
  rw [List.map_flatMap]
  congr 1
  funext i
  rw [recordsOf_keys]
  simpa [timed] using heads_timed_keys anchor [i]

/-- The items that the collector of a trace holds. -/
private def held (st : Option TraceState) : List Item := (st.map TraceState.items).getD []

private theorem held_entered (c : CollectId) (st : Option TraceState) (round : Round) (t : TraceState)
    (h : entered c st round = some t) : t.items.Subperm (held st ++ round.items c) := by
  obtain ⟨-, ⟨-, rfl⟩ | ⟨-, t', rfl, rfl⟩⟩ := entered_eq_some.1 h
  · exact (List.sublist_append_right _ _).subperm
  · exact List.Subperm.refl _

/-- What a call reports and what it goes on holding was held before or has been received. -/
private theorem traceStep_keys (cancelable : Bool) (c : CollectId) (st : Option TraceState) (round : Round) :
    ((traceStep cancelable c st round).2.map SpanRecord.key ++
        (held (traceStep cancelable c st round).1).flatMap Item.keys).Subperm
      ((held st ++ round.items c).flatMap Item.keys) := by
  unfold traceStep
  cases h : entered c st round with
  | none =>
    simp only
    cases cancelable with
    | true => exact List.nil_subperm
    | false =>
      simp only [Bool.false_eq_true, ↓reduceIte, staleRecords_keys, held, Option.map_none, Option.getD_none,
        List.flatMap_nil, List.append_nil]
      exact subperm_flatMap (List.sublist_append_right _ _).subperm _
  | some t =>
    have ht := subperm_flatMap (held_entered c st round t h) Item.keys
    have hpass : (t.pass round.anchor).map SpanRecord.key = t.items.flatMap Item.keys := by
      rw [TraceState.pass, recordsOf_keys, heads_timed_keys]
    simp only
    by_cases hc : round.commits c
    · simpa [hc, hpass, held] using ht
    · cases cancelable with
      | true => simpa [hc, held] using ht
      | false => simpa [hc, hpass, held] using ht

private theorem traceOut_keys (cancelable : Bool) (c : CollectId) (st : Option TraceState) (rounds : List Round) :
    ((traceOut cancelable c st rounds).flatten.map SpanRecord.key).Subperm
      ((held st ++ rounds.flatMap (·.items c)).flatMap Item.keys) := by
  induction rounds generalizing st with
  | nil => exact List.nil_subperm
  | cons round rounds ih =>
    have hstep := traceStep_keys cancelable c st round
    have hrun := ih (traceStep cancelable c st round).1
    rw [List.flatMap_append] at hrun hstep
    rw [traceOut, List.flatten_cons, List.map_append, List.flatMap_cons, ← List.append_assoc, List.flatMap_append,
      List.flatMap_append]
    refine ((List.Subperm.refl _).append hrun).trans ?_
    rw [← List.append_assoc]
    exact hstep.append (List.Subperm.refl _)

theorem attributedRun_flatten (cancelable : Bool) (c : CollectId) (rounds : List Round) :
    ownedBy c (attributedRun cancelable HashMap.empty rounds).flatten =
      (reportedFor cancelable c rounds).flatten := by
  rw [reportedFor, ← List.flatMap_def, ← List.flatMap_id, ownedBy_flatMap]
  rfl

theorem exists_reportedFor {cancelable : Bool} {rounds : List Round} {r : SpanRecord}
    (hr : r ∈ ((GlobalCollector.start { cancelable := cancelable }).handleRounds rounds).reported.flatten) :
    ∃ c, r ∈ (reportedFor cancelable c rounds).flatten := by
  rw [handleRounds_reported, ← List.map_flatten] at hr
  obtain ⟨⟨c, r⟩, hmem, rfl⟩ := List.mem_map.1 hr
  refine ⟨c, ?_⟩
  rw [← attributedRun_flatten]
  exact List.mem_map_of_mem (List.mem_filter.2 ⟨hmem, decide_eq_true rfl⟩)

theorem reportedFor_sublist (cancelable : Bool) (c : CollectId) (rounds : List Round) :
    (reportedFor cancelable c rounds).flatten.Sublist
      ((GlobalCollector.start { cancelable := cancelable }).handleRounds rounds).reported.flatten := by
  rw [handleRounds_reported, ← List.map_flatten, ← attributedRun_flatten]
  exact List.filter_sublist.map _

/-- The keys reported for `c` are among those of the items received for `c`. -/
theorem reportedFor_keys (cancelable : Bool) (c : CollectId) (rounds : List Round) :
    ((reportedFor cancelable c rounds).flatten.map SpanRecord.key).Subperm
      ((itemsFor c (received rounds)).flatMap Item.keys) := by
  have hitems : rounds.flatMap (·.items c) = itemsFor c (received rounds) := by
    simp only [itemsFor_eq, received, submitSpans, List.filterMap_flatMap, List.flatMap_assoc]
  rw [reportedFor_eq, ← hitems]
  exact traceOut_keys cancelable c none rounds

private theorem traceOut_false_keys {c : CollectId} {st : Option TraceState}
    (hst : ∀ t, st = some t → t.items = []) (rounds : List Round) :
    (traceOut false c st rounds).flatten.map SpanRecord.key = (rounds.flatMap (·.items c)).flatMap Item.keys := by
  induction rounds generalizing st with
  | nil => rfl
  | cons round rounds ih =>
    have hstep : (traceStep false c st round).2.map SpanRecord.key =
        (heads (timed round.anchor (round.items c))).map SpanRecord.key := by
      have h := congrArg (List.map SpanRecord.key) (traceStep_bare (c := c) hst round)
      rwa [List.map_map, List.map_map] at h
    rw [traceOut, List.flatten_cons, List.map_append, List.flatMap_cons, List.flatMap_append,
      ih fun t ht => traceStep_items ht, ← heads_timed_keys round.anchor (round.items c)]
    exact congrArg (· ++ _) hstep

/-- Without `cancelable` the keys reported for `c` are those of the items received for `c`. -/
theorem reportedFor_false_keys (c : CollectId) (rounds : List Round) :
    (reportedFor false c rounds).flatten.map SpanRecord.key = (itemsFor c (received rounds)).flatMap Item.keys := by
  have hitems : rounds.flatMap (·.items c) = itemsFor c (received rounds) := by
    simp only [itemsFor_eq, received, submitSpans, List.filterMap_flatMap, List.flatMap_assoc]
  rw [reportedFor_eq, ← hitems]
  exact traceOut_false_keys (fun t ht => by cases ht) rounds

/-- The keys that one round reports. -/
theorem reportedFor_round_keys {c : CollectId} {rounds : List Round} {k : Nat} {r : Round}
    (hr : rounds[k]? = some r) : ∃ recs, (reportedFor false c rounds)[k]? = some recs ∧
      recs.map SpanRecord.key = (r.items c).flatMap Item.keys := by
  by_cases hl : ∃ s, LiveFrom c rounds s k
  · obtain ⟨s, hl⟩ := hl
    refine ⟨_, reportedFor_live false hr hl, ?_⟩
    rw [if_pos (Or.inr rfl), TraceState.pass, TraceState.receive, openState_items, List.nil_append, recordsOf_keys,
      heads_timed_keys]
  · refine ⟨_, reportedFor_dead false hr fun s hs => hl ⟨s, hs⟩, ?_⟩
    rw [if_neg (by decide), staleRecords_keys]

/-- The keys of all submissions, with the collect ids of the items. -/
private def ownedKeys (cmds : List CollectCommand) : List (CollectId × RecordKey) :=
  (submitSpans cmds).flatMap fun cmd => cmd.collectToken.flatMap fun item =>
    (itemOf cmd.spans item).keys.map fun k => (item.collectId, k)

private theorem ownedBy_ownedKeys (cmds : List CollectCommand) (c : CollectId) :
    ownedBy c (ownedKeys cmds) = (itemsFor c cmds).flatMap Item.keys := by
  unfold ownedKeys
  rw [itemsFor_eq, ownedBy_flatMap, List.flatMap_assoc]
  congr 1
  funext cmd
  rw [ownedBy_flatMap]
  induction cmd.collectToken with
  | nil => rfl
  | cons item token ih =>
    rw [List.flatMap_cons, ih, ownedBy_map]
    by_cases h : item.collectId = c <;> simp [h]

private theorem ownedKeys_snd (cmds : List CollectCommand) :
    (ownedKeys cmds).map Prod.snd = (submitSpans cmds).flatMap SubmitSpans.keys := by
  simp only [ownedKeys, List.map_flatMap, List.map_map, Function.comp_def, List.map_id']
  rfl

/-- Without `cancelable` the keys reported are those received. -/
theorem reported_false_keys (rounds : List Round) :
    (((GlobalCollector.start { cancelable := false }).handleRounds rounds).reported.flatten.map SpanRecord.key).Perm
      ((submitSpans (received rounds)).flatMap SubmitSpans.keys) := by
  have howned : ((attributedRun false HashMap.empty rounds).flatten.map fun p => (p.1, p.2.key)).Perm
      (ownedKeys (received rounds)) := by
    refine perm_of_ownedBy fun c => ?_
    rw [ownedBy_map_snd, ownedBy_ownedKeys, attributedRun_flatten, reportedFor_false_keys]
  have h := howned.map Prod.snd
  rw [List.map_map] at h
  rw [handleRounds_reported]
  refine (List.Perm.of_eq ?_).trans (h.trans (List.Perm.of_eq (ownedKeys_snd _)))
  simp [List.map_flatten, Function.comp_def]

/-- In both modes the keys reported are among the keys received. -/
theorem reported_keys (cancelable : Bool) (rounds : List Round) :
    (((GlobalCollector.start { cancelable := cancelable }).handleRounds rounds).reported.flatten.map
        SpanRecord.key).Subperm ((submitSpans (received rounds)).flatMap SubmitSpans.keys) := by
  have howned : ((attributedRun cancelable HashMap.empty rounds).flatten.map fun p => (p.1, p.2.key)).Subperm
      (ownedKeys (received rounds)) := by
    rw [List.subperm_ext_iff]
    rintro ⟨c, k⟩ -
    rw [count_ownedBy, count_ownedBy, ownedBy_map_snd, ownedBy_ownedKeys]
    rw [attributedRun_flatten]
    exact (reportedFor_keys cancelable c rounds).count_le k
  have h := subperm_map howned Prod.snd
  rw [List.map_map] at h
  rw [handleRounds_reported]
  refine (List.Perm.of_eq ?_).subperm.trans (h.trans (List.Perm.of_eq (ownedKeys_snd _)).subperm)
  simp [List.map_flatten, Function.comp_def]

/-! ### Tokens that name every trace once -/

def DistinctTraces (token : CollectToken) : Prop := (token.map (·.traceId)).Nodup

instance (token : CollectToken) : Decidable (DistinctTraces token) := inferInstanceAs (Decidable (List.Nodup _))

/-- No trace is named twice with one parent. -/
def DistinctEdges (token : CollectToken) : Prop := (token.map fun item => (item.traceId, item.parentId)).Nodup

theorem DistinctTraces.edges {token : CollectToken} (h : DistinctTraces token) : DistinctEdges token := by
  refine List.Nodup.of_map Prod.fst ?_
  rw [List.map_map]
  exact h

private theorem DistinctTraces.issue {token : CollectToken} (h : DistinctTraces token) (id : SpanId) :
    DistinctTraces (issueToken id token) := by
  unfold DistinctTraces issueToken
  rw [List.map_map]
  exact h

theorem DistinctTraces.retain {token : CollectToken} (h : DistinctTraces token) :
    DistinctTraces (retainSampled token) :=
  List.Nodup.sublist (List.filter_sublist.map _) h

theorem DistinctEdges.retain {token : CollectToken} (h : DistinctEdges token) :
    DistinctEdges (retainSampled token) :=
  List.Nodup.sublist (List.filter_sublist.map _) h

/-- The items for the children of distinct parents. -/
theorem issue_distinctEdges {parents : List SpanInner} (hids : (parents.map (·.rawSpan.id)).Nodup)
    (htraces : ∀ s ∈ parents, DistinctTraces s.collectToken) :
    DistinctEdges (parents.flatMap SpanInner.issueCollectToken) := by
  unfold DistinctEdges
  rw [List.map_flatMap, List.nodup_flatMap]
  constructor
  · intro s hs
    exact ((htraces s hs).issue s.rawSpan.id).edges
  · rw [List.Nodup, List.pairwise_map] at hids
    refine hids.imp fun {s s'} hne => ?_
    have hparent : ∀ (s : SpanInner) (p : TraceId × SpanId),
        p ∈ s.issueCollectToken.map (fun item => (item.traceId, item.parentId)) → p.2 = s.rawSpan.id := by
      intro s p hp
      obtain ⟨item, hitem, rfl⟩ := List.mem_map.1 hp
      obtain ⟨item', -, rfl⟩ := List.mem_map.1 hitem
      rfl
    intro p hp hp'
    exact hne ((hparent s p hp).symm.trans (hparent s' p hp'))

/-! ### The keys of one submission -/

theorem mem_itemKeys {i : Item} {k : RecordKey} (h : k ∈ i.keys) :
    k.traceId = i.traceId ∧ ∃ raw ∈ i.spans.raws, raw.rawKind = .span ∧ raw.id = k.spanId := by
  obtain ⟨raw, hraw, rfl⟩ := List.mem_map.1 h
  rw [List.mem_filter, decide_eq_true_iff] at hraw
  exact ⟨rfl, raw, hraw.1, hraw.2, rfl⟩

private theorem itemKeys_nodup {i : Item} (h : (i.spans.raws.map (·.id)).Nodup) : i.keys.Nodup := by
  refine List.Nodup.of_map RecordKey.spanId ?_
  unfold Item.keys
  rw [List.map_map]
  exact h.sublist (List.filter_sublist.map _)

theorem span_keys_nodup {raw : RawSpan} {token : CollectToken} (h : DistinctEdges token) :
    (SubmitSpans.keys ⟨.span raw, token⟩).Nodup := by
  unfold SubmitSpans.keys
  rw [List.nodup_flatMap]
  refine ⟨fun item _ => itemKeys_nodup (by simp [itemOf, SpanSet.raws]), ?_⟩
  rw [DistinctEdges, List.Nodup, List.pairwise_map] at h
  refine h.imp fun {item item'} hne => ?_
  have hkey : ∀ (item : CollectTokenItem) (k : RecordKey), k ∈ (itemOf (.span raw) item).keys →
      (item.traceId, item.parentId) = (k.traceId, k.parentId) := by
    intro item k hk
    obtain ⟨raw', -, rfl⟩ := List.mem_map.1 hk
    rfl
  intro k hk hk'
  exact hne ((hkey item k hk).trans (hkey item' k hk').symm)

theorem localSpans_keys_nodup {localSpans : LocalSpansInner} {token : CollectToken} (hids : localSpans.ids.Nodup)
    (h : (∃ raw ∈ localSpans.spans, raw.rawKind = .span) → DistinctTraces token) :
    (SubmitSpans.keys ⟨.localSpansInner localSpans, token⟩).Nodup := by
  unfold SubmitSpans.keys
  rw [List.nodup_flatMap]
  refine ⟨fun item _ => itemKeys_nodup hids, ?_⟩
  by_cases hspan : ∃ raw ∈ localSpans.spans, raw.rawKind = .span
  · have htraces := h hspan
    rw [DistinctTraces, List.Nodup, List.pairwise_map] at htraces
    refine htraces.imp fun {item item'} hne k hk hk' => ?_
    exact hne ((mem_itemKeys hk).1.symm.trans (mem_itemKeys hk').1)
  · refine List.pairwise_of_forall fun item item' k hk => ?_
    obtain ⟨-, raw, hraw, hkind, -⟩ := mem_itemKeys hk
    exact absurd ⟨raw, hraw, hkind⟩ hspan

/-- A submission has keys only for spans that it takes with it. -/
theorem keys_ownIds {cmd : SubmitSpans} (hcmd : ∀ localSpans, cmd.spans ≠ .sharedLocalSpans localSpans)
    {k : RecordKey} (hk : k ∈ cmd.keys) : k.spanId ∈ cmd.ownIds := by
  obtain ⟨item, -, hk⟩ := List.mem_flatMap.1 hk
  obtain ⟨-, raw, hraw, -, hid⟩ := mem_itemKeys hk
  unfold SubmitSpans.ownIds
  cases hspans : cmd.spans with
  | span rawSpan =>
    simp only [itemOf, hspans, SpanSet.raws, List.mem_singleton] at hraw
    simp [← hid, hraw]
  | localSpansInner localSpans =>
    simp only [itemOf, hspans, SpanSet.raws] at hraw
    exact List.mem_map.2 ⟨raw, hraw, hid⟩
  | sharedLocalSpans localSpans => exact absurd hspans (hcmd localSpans)

end Fastrace
