import Fastrace.Batches
import Fastrace.Copies
import Fastrace.SpanTrees

/-!
# Trees before and after the collector

`from_span_sets` builds the trees of the submissions, one for each trace, and `from_span_records` the tree of the
records that the collector reports for a trace.  As long as nothing is attached to spans, and so there is nothing to
mount, the two show the same (`fromSpanSets_eq_reported`): what the collector does to a submission, an item of its
token and a raw span is what the test utility expects.

The tables of all traces are filled and linked in one pass over the submissions.  A pass does to the table of `c` what
a pass over the rows for `c` does to a table of its own (`get?_insertSets`, `get?_pushSets`).
-/

namespace Fastrace.Tree

/-- The rows of the items for `c`. -/
def rowsFor (c : CollectId) (ps : List (SpanSet × CollectTokenItem)) : List TreeRow :=
  (ps.filter (·.2.collectId = c)).flatMap fun p => setRows p.2 p.1

variable {rows rows' : List TreeRow} {c : CollectId}

private theorem rowsFor_append (ps ps' : List (SpanSet × CollectTokenItem)) :
    rowsFor c (ps ++ ps') = rowsFor c ps ++ rowsFor c ps' := by
  unfold rowsFor
  rw [List.filter_append, List.flatMap_append]

private theorem rowsFor_singleton (p : SpanSet × CollectTokenItem) :
    rowsFor c [p] = if p.2.collectId = c then setRows p.2 p.1 else [] := by
  unfold rowsFor
  by_cases h : p.2.collectId = c <;> simp [h]

private theorem rowsFor_cons (p : SpanSet × CollectTokenItem) (ps : List (SpanSet × CollectTokenItem)) :
    rowsFor c (p :: ps) = rowsFor c [p] ++ rowsFor c ps := rowsFor_append [p] ps

private theorem rowsFor_eq_nil {ps : List (SpanSet × CollectTokenItem)} (h : ∀ p ∈ ps, p.2.collectId ≠ c) :
    rowsFor c ps = [] := by
  have hnone : ps.filter (·.2.collectId = c) = [] := List.filter_eq_nil_iff.2 fun p hp => by simpa using h p hp
  rw [rowsFor, hnone]
  rfl

private theorem ids_append (rows rows' : List TreeRow) : ids (rows ++ rows') = ids rows ++ ids rows' := List.map_append

private theorem DistinctIds.of_append (h : DistinctIds (rows ++ rows')) :
    DistinctIds rows ∧ DistinctIds rows' ∧ List.Disjoint (ids rows) (ids rows') := by
  obtain ⟨hnodup, hnonzero⟩ := h
  rw [ids_append] at hnodup hnonzero
  rw [List.mem_append, not_or] at hnonzero
  exact ⟨⟨hnodup.of_append_left, hnonzero.1⟩, ⟨hnodup.of_append_right, hnonzero.2⟩,
    List.disjoint_of_nodup_append hnodup⟩

/-! ### Filling the tables -/

/-- The nodes of more rows in a filled table, with a new node for the root. -/
private theorem Filled.insert {table : TreeChildren} (hdistinct : DistinctIds (rows ++ rows'))
    (h : ∀ x, x ≠ default → table.get? x = (rows.find? (·.id = x)).map TreeRow.node) :
    Filled (rows ++ rows') (insertRows (table.insert default rootNode) rows') := by
  obtain ⟨hrows, hrows', hdisjoint⟩ := hdistinct.of_append
  intro x
  rw [get?_insertRows hrows'.nodup, HashMap.get?_insert, List.find?_append]
  by_cases hroot : x = default
  · subst hroot
    rw [if_pos rfl, if_pos rfl, hrows'.find?_default]
    rfl
  · rw [if_neg hroot, if_neg hroot, h x hroot]
    cases hold : rows.find? (·.id = x) with
    | none =>
      rw [Option.none_or]
      cases rows'.find? (·.id = x) <;> rfl
    | some row =>
      obtain ⟨hrow, hid⟩ := hrows.find?_eq_some.1 hold
      have hnone : rows'.find? (·.id = x) = none := by
        rw [List.find?_eq_none]
        intro row' hrow' hid'
        have hsame : row'.id = row.id := (of_decide_eq_true hid').trans hid.symm
        exact hdisjoint (List.mem_map_of_mem hrow) (hsame ▸ List.mem_map_of_mem hrow')
      rw [hnone]
      rfl

/-- The table of `c` is there when an item names `c`, and filled with its rows. -/
theorem get?_insertSets {ps : List (SpanSet × CollectTokenItem)} (hdistinct : DistinctIds (rowsFor c ps)) :
    (∀ p ∈ ps, p.2.collectId ≠ c) ∧ (insertSets ps).get? c = none ∨
      (∃ p ∈ ps, p.2.collectId = c) ∧
        ∃ table, (insertSets ps).get? c = some table ∧ Filled (rowsFor c ps) table := by
  induction ps using List.reverseRecOn with
  | nil => exact Or.inl ⟨fun p hp => (by cases hp), rfl⟩
  | append_singleton ps p ih =>
    rw [rowsFor_append] at hdistinct
    have hfold : insertSets (ps ++ [p]) = insertSet (insertSets ps) p.2 p.1 := by
      rw [insertSets, List.foldl_append]
      rfl
    rw [hfold, insertSet, HashMap.get?_insert, rowsFor_append]
    have hbefore := ih hdistinct.of_append.1
    by_cases hc : c = p.2.collectId
    · right
      refine ⟨⟨p, by simp, hc.symm⟩, _, by rw [if_pos hc], ?_⟩
      rw [rowsFor_singleton, if_pos hc.symm] at hdistinct ⊢
      refine Filled.insert hdistinct fun x hx => ?_
      rcases hbefore with ⟨hnone, hget⟩ | ⟨-, table, hget, hfilled⟩
      · rw [← hc, hget, rowsFor_eq_nil hnone]
        rfl
      · rw [← hc, hget, Option.getD_some, hfilled, if_neg hx]
    · rw [if_neg hc, rowsFor_singleton, if_neg (Ne.symm hc), List.append_nil]
      rcases hbefore with ⟨hnone, hget⟩ | ⟨⟨p', hp', hpc⟩, htable⟩
      · refine Or.inl ⟨fun p' hp' => ?_, hget⟩
        rcases List.mem_append.1 hp' with hp' | hp'
        · exact hnone p' hp'
        · rw [List.mem_singleton.1 hp']
          exact Ne.symm hc
      · exact Or.inr ⟨⟨p', List.mem_append_left _ hp', hpc⟩, htable⟩

/-! ### Linking the tables -/

private theorem pushRows_append (table : TreeChildren) (rows rows' : List TreeRow) :
    pushRows table (rows ++ rows') = (pushRows table rows).bind fun table => pushRows table rows' :=
  List.foldlM_append

private theorem get?_pushSet {collect collect' : Collect} {p : SpanSet × CollectTokenItem}
    (h : pushSet collect p.2 p.1 = some collect') (c : CollectId) :
    collect'.get? c = ((collect.get? c).bind fun table => pushRows table (rowsFor c [p])) ∧
      (collect'.get? c).isSome = (collect.get? c).isSome := by
  obtain ⟨table, htable, h⟩ := Option.bind_eq_some_iff.1 h
  obtain ⟨table', hpush, rfl⟩ := Option.map_eq_some_iff.1 h
  rw [HashMap.get?_insert, rowsFor_singleton]
  by_cases hc : c = p.2.collectId
  · rw [if_pos hc, if_pos hc.symm, hc, htable, Option.bind_some, hpush]
    exact ⟨rfl, rfl⟩
  · rw [if_neg hc, if_neg (Ne.symm hc)]
    refine ⟨?_, rfl⟩
    cases collect.get? c <;> rfl

/-- The table of `c` is linked by its rows. -/
theorem get?_pushSets {collect collect' : Collect} {ps : List (SpanSet × CollectTokenItem)}
    (h : pushSets collect ps = some collect') (c : CollectId) :
    collect'.get? c = ((collect.get? c).bind fun table => pushRows table (rowsFor c ps)) ∧
      (collect'.get? c).isSome = (collect.get? c).isSome := by
  induction ps generalizing collect with
  | nil =>
    cases h
    refine ⟨?_, rfl⟩
    cases hget : collect'.get? c <;> rfl
  | cons p ps ih =>
    obtain ⟨collect₁, h₁, h⟩ := Option.bind_eq_some_iff.1 h
    obtain ⟨hget, hsome⟩ := ih h
    obtain ⟨hget₁, hsome₁⟩ := get?_pushSet h₁ c
    refine ⟨?_, hsome.trans hsome₁⟩
    rw [hget, hget₁, Option.bind_assoc, rowsFor_cons p ps]
    simp only [pushRows_append]

/-- The pass ends when every table can be linked. -/
private theorem pushSets_isSome {collect : Collect} {ps : List (SpanSet × CollectTokenItem)}
    (hhas : ∀ p ∈ ps, (collect.get? p.2.collectId).isSome = true) : (pushSets collect ps).isSome = true ↔
      ∀ c table, collect.get? c = some table → (pushRows table (rowsFor c ps)).isSome = true := by
  induction ps generalizing collect with
  | nil => exact iff_of_true rfl fun c table _ => rfl
  | cons p ps ih =>
    rw [List.forall_mem_cons] at hhas
    have hcons : pushSets collect (p :: ps) = (pushSet collect p.2 p.1).bind fun collect => pushSets collect ps := rfl
    rw [hcons]
    constructor
    · intro h c table htable
      obtain ⟨collect', hcollect'⟩ := Option.isSome_iff_exists.1 h
      obtain ⟨hget, hsome⟩ := get?_pushSets (hcons.trans hcollect') c
      rw [htable, Option.bind_some] at hget
      rw [← hget, hsome, htable]
      rfl
    · intro h
      obtain ⟨table, htable⟩ := Option.isSome_iff_exists.1 hhas.1
      have hpush := h _ table htable
      rw [rowsFor_cons, pushRows_append, rowsFor_singleton, if_pos rfl] at hpush
      obtain ⟨table', htable'⟩ := Option.isSome_iff_exists.1 hpush
      obtain ⟨table₁, h₁, -⟩ := Option.bind_eq_some_iff.1 htable'
      have hset : pushSet collect p.2 p.1 = some (collect.insert p.2.collectId table₁) := by
        rw [pushSet, htable, Option.bind_some, h₁, Option.map_some]
      rw [hset, Option.bind_some, ih fun p' hp' => (get?_pushSet hset _).2.trans (hhas.2 p' hp')]
      intro c table₂ htable₂
      have hget := (get?_pushSet hset c).1
      rw [htable₂] at hget
      obtain ⟨table₀, htable₀, hpush₀⟩ := Option.bind_eq_some_iff.1 hget.symm
      have hall := h c table₀ htable₀
      rwa [rowsFor_cons, pushRows_append, hpush₀] at hall

/-- What comes of the table of `c`. -/
private theorem treeOf_eq {collect : Collect} {ps : List (SpanSet × CollectTokenItem)}
    (hdistinct : DistinctIds (rowsFor c ps))
    (hpush : pushSets (insertSets ps) ps = some collect) (hc : ∃ p ∈ ps, p.2.collectId = c) (depth : Nat) :
    treeOf depth collect c = ((ofRows depth (rowsFor c ps)).bind onlyChild).map fun t => (c, t) := by
  obtain ⟨p, hp, hpc⟩ := hc
  rcases get?_insertSets hdistinct with ⟨hnone, -⟩ | ⟨-, table, htable, hfilled⟩
  · exact absurd hpc (hnone p hp)
  · obtain ⟨hget, hsome⟩ := get?_pushSets hpush c
    rw [htable, Option.bind_some] at hget
    rw [htable] at hsome
    obtain ⟨raw, hraw⟩ := Option.isSome_iff_exists.1 hsome
    have hraw' := hget.symm.trans hraw
    rw [treeOf, hraw, Option.bind_some, ofRows_eq_of_isTable hdistinct (hfilled.isTable hdistinct hraw')
      (hfilled.push_isSome_iff.1 (by rw [hraw']; rfl)) depth]
    cases (buildTree depth default raw).map sort <;> rfl

/-- Sorted entries for different keys are in the order of the keys. -/
private theorem pairwise_fst {f : CollectId → Option (CollectId × Tree)} (hf : ∀ c e, f c = some e → e.1 = c)
    {keys : List CollectId} {entries : List (CollectId × Tree)} (h : keys.mapM f = some entries)
    (hkeys : keys.Nodup) : ((sortUnstable (pairCmp compare cmp) entries).map Prod.fst).Pairwise (· < ·) := by
  have hfst : entries.map Prod.fst = keys := by
    induction Rose.mapM_eq_some.1 h with
    | nil => rfl
    | @cons c e keys entries he hrest ih =>
      rw [List.map_cons, hf c e he, ih (Rose.mapM_eq_some.2 hrest) hkeys.of_cons]
  have hnodup : ((sortUnstable (pairCmp compare cmp) entries).map Prod.fst).Nodup := by
    rw [sortUnstable, ((List.perm_insertionSort _ entries).map Prod.fst).nodup_iff, hfst]
    exact hkeys
  rw [List.pairwise_map]
  refine (pairwise_sortUnstable entries).imp₂ (fun a b hle hne => ?_) (List.pairwise_map.1 hnodup)
  rcases Nat.lt_trichotomy a.1 b.1 with hlt | heq | hgt
  · exact hlt
  · exact absurd heq hne
  · rw [pairCmp, Nat.compare_eq_gt.2 hgt] at hle
    cases hle

/-- The trees of the submissions are those of the rows for each trace, or there is a panic for one of the traces. -/
private theorem fromSpanSets_cases {spanSets : List (SpanSet × CollectToken)}
    (hdistinct : ∀ c, DistinctIds (rowsFor c (setItems spanSets))) (depth : Nat) (order : IterOrder CollectId) :
    ((fromSpanSets depth order spanSets).isSome = true ↔ ∀ c, (∃ p ∈ setItems spanSets, p.2.collectId = c) →
        ((ofRows depth (rowsFor c (setItems spanSets))).bind onlyChild).isSome = true) ∧
      ∀ res, fromSpanSets depth order spanSets = some res →
        (∀ c t, (c, t) ∈ res ↔ (∃ p ∈ setItems spanSets, p.2.collectId = c) ∧
          (ofRows depth (rowsFor c (setItems spanSets))).bind onlyChild = some t) ∧
        (res.map Prod.fst).Pairwise (· < ·) := by
  generalize hps : setItems spanSets = ps at hdistinct
  have hhas : ∀ p ∈ ps, ((insertSets ps).get? p.2.collectId).isSome = true := by
    intro p hp
    rcases get?_insertSets (hdistinct p.2.collectId) with ⟨hnone, -⟩ | ⟨-, table, htable, -⟩
    · exact absurd rfl (hnone p hp)
    · rw [htable]
      rfl
  have hkeys : ∀ {collect : Collect}, pushSets (insertSets ps) ps = some collect → ∀ c, c ∈ order.visit collect.keys ↔
      ∃ p ∈ ps, p.2.collectId = c := by
    intro collect hpush c
    rw [(order.perm _).mem_iff, HashMap.mem_keys, (get?_pushSets hpush c).2]
    rcases get?_insertSets (hdistinct c) with ⟨hnone, hget⟩ | ⟨hc, table, hget, -⟩
    · rw [hget]
      exact iff_of_false (fun h => by cases h) fun ⟨p, hp, hpc⟩ => hnone p hp hpc
    · rw [hget]
      exact iff_of_true rfl hc
  unfold fromSpanSets
  rw [hps]
  cases hpush : pushSets (insertSets ps) ps with
  | none =>
    -- a table cannot be linked, and no tree is built of its rows
    refine ⟨iff_of_false (fun h => by cases h) fun hall => ?_, fun res hres => by cases hres⟩
    have hfails : ¬(pushSets (insertSets ps) ps).isSome = true := by
      rw [hpush]
      exact fun h => by cases h
    rw [pushSets_isSome hhas] at hfails
    refine hfails fun c table htable => ?_
    rcases get?_insertSets (hdistinct c) with ⟨-, hget⟩ | ⟨hc, table', hget, hfilled⟩
    · rw [hget] at htable
      cases htable
    · rw [hget] at htable
      cases htable
      obtain ⟨t, ht⟩ := Option.isSome_iff_exists.1 (hall c hc)
      obtain ⟨t', ht', -⟩ := Option.bind_eq_some_iff.1 ht
      obtain ⟨raw, hraw, -⟩ := Option.bind_eq_some_iff.1 ht'
      rw [hfilled.push_isSome_iff, ← (filled_insertRows (hdistinct c)).push_isSome_iff, hraw]
      rfl
  | some collect =>
    rw [Option.bind_some]
    have htree : ∀ c, c ∈ order.visit collect.keys → treeOf depth collect c =
        ((ofRows depth (rowsFor c ps)).bind onlyChild).map fun t => (c, t) :=
      fun c hc => treeOf_eq (hdistinct c) hpush ((hkeys hpush c).1 hc) depth
    have hvisit := hkeys hpush
    constructor
    · rw [Option.isSome_map, Rose.isSome_mapM_iff]
      constructor
      · intro hall c hc
        have hsome := hall c ((hvisit c).2 hc)
        rwa [htree c ((hvisit c).2 hc), Option.isSome_map] at hsome
      · intro hall c hc
        rw [htree c hc, Option.isSome_map]
        exact hall c ((hvisit c).1 hc)
    · intro res hres
      obtain ⟨entries, hentries, rfl⟩ := Option.map_eq_some_iff.1 hres
      refine ⟨fun c t => ?_, pairwise_fst (fun c e he => ?_) hentries ((order.perm _).nodup_iff.2 collect.keys_nodup)⟩
      case refine_2 =>
        obtain ⟨children, -, he⟩ := Option.bind_eq_some_iff.1 he
        obtain ⟨tree, -, he⟩ := Option.bind_eq_some_iff.1 he
        obtain ⟨child, -, rfl⟩ := Option.map_eq_some_iff.1 he
        rfl
      rw [sortUnstable, List.mem_insertionSort, Rose.mem_of_mapM hentries, ← hvisit c]
      constructor
      · rintro ⟨c', hc', ht⟩
        rw [htree c' hc'] at ht
        obtain ⟨t', ht', heq⟩ := Option.map_eq_some_iff.1 ht
        cases heq
        exact ⟨hc', ht'⟩
      · rintro ⟨hc, ht⟩
        refine ⟨c, hc, ?_⟩
        rw [htree c hc, ht]
        rfl

end Fastrace.Tree

namespace Fastrace

/-! ### What the collector reports when nothing is attached -/

/-- The set holds spans only, and a span that is submitted alone has no parent of its own. -/
def SpanSet.OnlySpans (spans : SpanSet) : Prop :=
  (∀ raw ∈ spans.raws, raw.rawKind = .span) ∧ ∀ raw, spans = .span raw → raw.parentId = default

variable {c : CollectId}

/-- The heads of an item are what the tree has of it. -/
private theorem recordRow_heads {spans : SpanSet} (honly : spans.OnlySpans) (item : CollectTokenItem)
    (anchor : Anchor) :
    ((itemOf spans item).heads anchor).map Tree.recordRow = Tree.setRows item spans := by
  have hall : (itemOf spans item).spans.raws.filter (·.rawKind = .span) = spans.raws :=
    List.filter_eq_self.2 fun raw hraw => decide_eq_true (honly.1 raw hraw)
  rw [Item.heads, hall, List.map_map, Tree.setRows]
  refine List.map_congr_left fun raw hraw => ?_
  cases spans with
  | span raw' =>
    cases List.mem_singleton.1 hraw
    simp [Tree.itemRow, Tree.rawRow, Tree.recordRow, Item.record, Item.parentOf, itemOf, honly.2 raw rfl]
  | localSpansInner localSpans => rfl
  | sharedLocalSpans localSpans => rfl

private theorem attachments_of_onlySpans {spans : SpanSet} (honly : spans.OnlySpans) (item : CollectTokenItem)
    (anchor : Anchor) : (itemOf spans item).attachments anchor = [] := by
  have hnone : (itemOf spans item).spans.raws.filter (·.rawKind ≠ .span) = [] :=
    List.filter_eq_nil_iff.2 fun raw hraw => by simp [honly.1 raw hraw]
  rw [Item.attachments, hnone]
  rfl

/-- Without attachments a pass reports the heads and leaves nothing. -/
private theorem recordsOf_plain {d : Waiting} (hd : ∀ x, d x = []) {ts : List TimedItem} (hts : attachments ts = []) :
    recordsOf d ts = heads ts ∧ ∀ x, leftover d ts x = [] := by
  have hgathered : ∀ x, gathered d ts x = [] := fun x => by rw [gathered, hd, hts, keyed_nil, List.append_nil]
  refine ⟨mountAll_nil_waiting hgathered _, fun x => ?_⟩
  rw [leftover, hgathered, ite_self]

/-- The collector of one trace when nothing is waiting in it. -/
def TraceState.Idle (t : TraceState) : Prop := t.items = [] ∧ ∀ x, t.waiting x = []

/-- A call reports the heads of its items, from a collector or as stale spans. -/
private theorem traceStep_plain {st : Option TraceState} (hst : ∀ t, st = some t → t.Idle) {round : Round}
    (hplain : ∀ i ∈ round.items c, i.attachments round.anchor = []) :
    (traceStep false c st round).2 = heads (timed round.anchor (round.items c)) ∧
      ∀ t, (traceStep false c st round).1 = some t → t.Idle := by
  have hts : attachments (timed round.anchor (round.items c)) = [] := by
    rw [attachments, timed, List.flatMap_map, List.flatMap_eq_nil_iff]
    exact hplain
  unfold traceStep
  cases hentered : entered c st round with
  | none =>
    refine ⟨?_, fun t ht => by cases ht⟩
    simp only [Bool.false_eq_true, if_false, staleRecords, heads, timed, List.flatMap_map]
    refine List.flatMap_congr fun i hi => ?_
    have hone : attachments [(round.anchor, i)] = [] := by rw [attachments, List.flatMap_singleton, hplain i hi]
    rw [(recordsOf_plain (fun _ => rfl) hone).1, heads, List.flatMap_singleton]
  | some t =>
    have ht : t.items = round.items c ∧ ∀ x, t.waiting x = [] := by
      obtain ⟨-, ⟨-, rfl⟩ | ⟨-, t', ht', rfl⟩⟩ := entered_eq_some.1 hentered
      · exact ⟨rfl, fun _ => rfl⟩
      · obtain ⟨hitems, hwaiting⟩ := hst t' ht'
        exact ⟨by rw [TraceState.receive, hitems, List.nil_append], hwaiting⟩
    obtain ⟨hrecords, hleft⟩ := recordsOf_plain ht.2 hts
    have hpass : t.pass round.anchor = heads (timed round.anchor (round.items c)) := by
      rw [TraceState.pass, ht.1, hrecords]
    by_cases hcommits : round.commits c
    · simp only [hcommits, if_true]
      exact ⟨hpass, fun t' ht' => by cases ht'⟩
    · simp only [hcommits, if_false, Bool.false_eq_true]
      refine ⟨hpass, fun t' ht' => ?_⟩
      cases ht'
      rw [ht.1]
      exact ⟨rfl, hleft⟩

/-- Over a whole run the heads of all items are reported. -/
private theorem reportedFor_plain {rounds : List Round}
    (hplain : ∀ r ∈ rounds, ∀ i ∈ r.items c, i.attachments r.anchor = []) :
    (reportedFor false c rounds).flatten = heads (timedItems c rounds) := by
  suffices hout : ∀ st : Option TraceState, (∀ t, st = some t → t.Idle) →
      (traceOut false c st rounds).flatten = heads (timedItems c rounds) by
    rw [reportedFor_eq]
    exact hout none fun t ht => by cases ht
  induction rounds with
  | nil => exact fun st hst => rfl
  | cons r rounds ih =>
    intro st hst
    rw [List.forall_mem_cons] at hplain
    obtain ⟨hstep, hidle⟩ := traceStep_plain hst hplain.1
    rw [traceOut, List.flatten_cons, hstep, ih hplain.2 _ hidle, timedItems_cons, heads_append]

/-- The submissions, as they are handed to the collector. -/
def submissions (spanSets : List (SpanSet × CollectToken)) : List SubmitSpans := spanSets.map fun p => ⟨p.1, p.2⟩

/-- The rows of the records for `c` are those of the submissions with an item for `c`. -/
private theorem rows_reported {rounds : List Round} {spanSets : List (SpanSet × CollectToken)}
    (honly : ∀ p ∈ spanSets, p.1.OnlySpans)
    (hreceived : (submitSpans (received rounds)).Perm (submissions spanSets)) :
    ((reportedFor false c rounds).flatten.map Tree.recordRow).Perm (Tree.rowsFor c (Tree.setItems spanSets)) := by
  have hspans : ∀ r ∈ rounds, ∀ cmd ∈ submitSpans r.commands, cmd.spans.OnlySpans := by
    intro r hr cmd hcmd
    obtain ⟨p, hp, rfl⟩ := List.mem_map.1 (hreceived.subset (mem_submitSpans_received hr hcmd))
    exact honly p hp
  have hplain : ∀ r ∈ rounds, ∀ i ∈ r.items c, i.attachments r.anchor = [] := by
    intro r hr i hi
    rw [Round.items, itemsFor_eq] at hi
    obtain ⟨cmd, hcmd, hi⟩ := List.mem_flatMap.1 hi
    obtain ⟨item, -, rfl⟩ := List.mem_map.1 hi
    exact attachments_of_onlySpans (hspans r hr cmd hcmd) item r.anchor
  have hrows : (reportedFor false c rounds).flatten.map Tree.recordRow =
      (submitSpans (received rounds)).flatMap fun cmd =>
        (cmd.collectToken.filter (·.collectId = c)).flatMap fun item => Tree.setRows item cmd.spans := by
    rw [reportedFor_plain hplain, timedItems, heads, List.flatMap_assoc, List.map_flatMap, submitSpans_received,
      List.flatMap_assoc]
    refine List.flatMap_congr fun r hr => ?_
    rw [timed, List.flatMap_map, Round.items, itemsFor_eq, List.flatMap_assoc, List.map_flatMap]
    refine List.flatMap_congr fun cmd hcmd => ?_
    rw [List.flatMap_map, List.map_flatMap]
    exact List.flatMap_congr fun item _ => recordRow_heads (hspans r hr cmd hcmd) item r.anchor
  rw [hrows]
  refine (hreceived.flatMap_right _).trans (List.Perm.of_eq ?_)
  rw [submissions, List.flatMap_map, Tree.rowsFor, Tree.setItems, List.filter_flatMap, List.flatMap_assoc]
  refine List.flatMap_congr fun p _ => ?_
  rw [List.filter_map, List.flatMap_map]
  rfl

/-- An item of the submissions names the trace. -/
def NamedBy (spanSets : List (SpanSet × CollectToken)) (c : CollectId) : Prop :=
  ∃ p ∈ spanSets, ∃ item ∈ p.2, item.collectId = c

/-- Submissions of spans without attachments, received in whatever rounds and order: `from_span_sets` returns on them
exactly when `from_span_records` returns on the records reported for every trace they name, and it returns the trees of
these, one for each trace, in the order of the collect ids. -/
theorem fromSpanSets_eq_reported {rounds : List Round} {spanSets : List (SpanSet × CollectToken)}
    (honly : ∀ p ∈ spanSets, p.1.OnlySpans)
    (hreceived : (submitSpans (received rounds)).Perm (submissions spanSets))
    (hnodup : ∀ c, ((reportedFor false c rounds).flatten.map SpanRecord.spanId).Nodup)
    (hnonzero : ∀ c, default ∉ (reportedFor false c rounds).flatten.map SpanRecord.spanId) (depth : Nat)
    (order : IterOrder CollectId) :
    ((Tree.fromSpanSets depth order spanSets).isSome = true ↔ ∀ c, NamedBy spanSets c →
        (Tree.fromSpanRecords depth (reportedFor false c rounds).flatten).isSome = true) ∧
      ∀ trees, Tree.fromSpanSets depth order spanSets = some trees →
        (∀ c t, (c, t) ∈ trees ↔ NamedBy spanSets c ∧
          Tree.fromSpanRecords depth (reportedFor false c rounds).flatten = some t) ∧
        (trees.map Prod.fst).Pairwise (· < ·) := by
  have hrecords : ∀ c, Tree.DistinctIds ((reportedFor false c rounds).flatten.map Tree.recordRow) :=
    fun c => ⟨Tree.ids_recordRow _ ▸ hnodup c, Tree.ids_recordRow _ ▸ hnonzero c⟩
  have hdistinct : ∀ c, Tree.DistinctIds (Tree.rowsFor c (Tree.setItems spanSets)) :=
    fun c => (hrecords c).perm (rows_reported honly hreceived)
  have hnamed : ∀ c, (∃ p ∈ Tree.setItems spanSets, p.2.collectId = c) ↔ NamedBy spanSets c := by
    intro c
    unfold Tree.setItems NamedBy
    simp only [List.mem_flatMap, List.mem_map]
    constructor
    · rintro ⟨-, ⟨p, hp, item, hitem, rfl⟩, hc⟩
      exact ⟨p, hp, item, hitem, hc⟩
    · rintro ⟨p, hp, item, hitem, hc⟩
      exact ⟨_, ⟨p, hp, item, hitem, rfl⟩, hc⟩
  have htrees := Tree.fromSpanSets_cases hdistinct depth order
  have hof : ∀ c, (Tree.ofRows depth (Tree.rowsFor c (Tree.setItems spanSets))).bind Tree.onlyChild =
      Tree.fromSpanRecords depth (reportedFor false c rounds).flatten := by
    intro c
    rw [Tree.fromSpanRecords, Tree.ofRows_perm (hrecords c) (rows_reported honly hreceived)]
  simp only [hnamed, hof] at htrees
  exact htrees

/-! ### A span with parents in two traces -/

def spanOf (id parentId : SpanId) (name : String) : RawSpan := ⟨id, parentId, ⟨1⟩, name, none, .span, ⟨2⟩⟩

def joinedSets : List (SpanSet × CollectToken) := [
  (.localSpansInner ⟨[spanOf ⟨4⟩ ⟨0⟩ "local", spanOf ⟨5⟩ ⟨4⟩ "nested"], ⟨3⟩⟩,
    [⟨⟨1⟩, ⟨3⟩, 0, false, true⟩, ⟨⟨2⟩, ⟨3⟩, 1, false, true⟩]),
  (.span (spanOf ⟨3⟩ ⟨0⟩ "joined"), [⟨⟨1⟩, ⟨1⟩, 0, false, true⟩, ⟨⟨2⟩, ⟨2⟩, 1, false, true⟩]),
  (.span (spanOf ⟨1⟩ ⟨0⟩ "left"), [⟨⟨1⟩, ⟨0⟩, 0, true, true⟩]),
  (.span (spanOf ⟨2⟩ ⟨0⟩ "right"), [⟨⟨2⟩, ⟨0⟩, 1, true, true⟩])]

/-- The first trace has a collector, and the second has been committed too early. -/
def joinedRounds : List Round := [
  ⟨.commitCollect 1 :: ((submissions joinedSets).take 2).map .submitSpans, fun i => i.ticks, .stored⟩,
  ⟨.startCollect 0 :: .commitCollect 0 :: ((submissions joinedSets).drop 2).map .submitSpans, fun i => i.ticks,
    .stored⟩]

theorem fromSpanSets_eq_reported_joined :
    ((Tree.fromSpanSets 6 .stored joinedSets).isSome = true ↔ ∀ c, NamedBy joinedSets c →
        (Tree.fromSpanRecords 6 (reportedFor false c joinedRounds).flatten).isSome = true) ∧
      (Tree.fromSpanSets 6 .stored joinedSets).map (·.map fun p => (p.1, p.2.name)) =
        some [(0, "left"), (1, "right")] := by
  have honly : ∀ p ∈ joinedSets, p.1.OnlySpans := by
    intro p hp
    simp only [joinedSets, List.mem_cons, List.not_mem_nil, or_false] at hp
    rcases hp with rfl | rfl | rfl | rfl
    · exact ⟨by decide, fun raw hraw => by cases hraw⟩
    all_goals exact ⟨by decide, fun raw hraw => by cases hraw; rfl⟩
  have hreceived : (submitSpans (received joinedRounds)).Perm (submissions joinedSets) := List.Perm.of_eq rfl
  have hids : ∀ c, ((reportedFor false c joinedRounds).flatten.map SpanRecord.spanId).Perm
      (Tree.ids (Tree.rowsFor c (Tree.setItems joinedSets))) := by
    intro c
    rw [← Tree.ids_recordRow]
    exact (rows_reported honly hreceived).map _
  have hdistinct : ∀ c, Tree.DistinctIds (Tree.rowsFor c (Tree.setItems joinedSets)) := by
    intro c
    by_cases hfirst : c = 0
    · subst hfirst
      exact ⟨by decide, by decide⟩
    by_cases hsecond : c = 1
    · subst hsecond
      exact ⟨by decide, by decide⟩
    have hnone : Tree.rowsFor c (Tree.setItems joinedSets) = [] := by
      refine Tree.rowsFor_eq_nil fun p hp => ?_
      have hitem : p.2.collectId = 0 ∨ p.2.collectId = 1 := by
        revert p
        decide
      rcases hitem with h | h
      · exact fun hc => hfirst (hc.symm.trans h)
      · exact fun hc => hsecond (hc.symm.trans h)
    rw [hnone]
    exact ⟨by decide, by decide⟩
  exact ⟨(fromSpanSets_eq_reported honly hreceived (fun c => (hids c).nodup_iff.2 (hdistinct c).nodup)
    (fun c hmem => (hdistinct c).nonzero ((hids c).subset hmem)) 6 .stored).1, by decide⟩

end Fastrace
