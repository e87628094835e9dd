import Fastrace.Carrying
import Fastrace.Joins
import Fastrace.Submissions

/-!
# Attachments of replicas

A span with several items in one trace is reported several times for that trace, and so is a set of local spans that
is pushed to several spans of the trace.  `mount_danglings` gives the attachments that have arrived for a span id to
the first record with that id, and an attachment of a span with several items arrives as often as the span has items.
So of the replicas of one pass the first has every attachment several times and the others have none.
`replicas_carry_attachments` says when each replica carries its attachments exactly once.
-/

namespace Fastrace

/-- The attachments submitted for the span `x`, once for each submission. -/
def attachmentsOf (x : SpanId) (cmds : List CollectCommand) : List RawSpan :=
  (submitSpans cmds).flatMap fun cmd => cmd.spans.raws.filter fun raw =>
    raw.rawKind ≠ .span ∧ ∃ item ∈ cmd.collectToken, (itemOf cmd.spans item).parentOf raw = x

/-- The attachments of the entry `x` of a set. -/
def attachmentsIn (x : SpanId) (raws : List RawSpan) : List RawSpan :=
  raws.filter fun raw => raw.rawKind ≠ .span ∧ raw.parentId = x

/-- The items that round `k` post-processes for `c`, when the collector of `c` has been started in round `s`. -/
def passItems (cancelable : Bool) (c : CollectId) (rounds : List Round) (s k : Nat) : List Item :=
  (between rounds (if cancelable then s else k) (k + 1)).flatMap (·.items c)

/-- The replicas of the span `x` among these items. -/
def replicas (cancelable : Bool) (c : CollectId) (rounds : List Round) (s k : Nat) (x : SpanId) : List Item :=
  (passItems cancelable c rounds s k).filter fun i => x ∈ i.spanIds

/-- In round `k` the collector of `c` is live and has received, or receives, all that is attached to `x`. -/
def ArrivedBy (c : CollectId) (rounds : List Round) (x : SpanId) (k : Nat) : Prop :=
  ∃ s, LiveFrom c rounds s k ∧ ∀ (j : Nat) (r : Round), rounds[j]? = some r →
    (∃ a ∈ attachmentsOf x r.commands, a.Attaches) → s ≤ j ∧ j ≤ k

/-! ### The pass of a round -/

private def passWaiting (cancelable : Bool) (c : CollectId) (rounds : List Round) (s k : Nat) : Waiting :=
  if cancelable then fun _ => [] else waitingAfter c (fun _ => []) (between rounds s k)

/-- A round that reports something for `c` makes a pass over the items of the live collector, or reports stale
spans. -/
private theorem reported_pass {cancelable : Bool} {c : CollectId} {rounds : List Round} {k : Nat} {r : Round}
    (hr : rounds[k]? = some r) {recs : List SpanRecord} (hrecs : (reportedFor cancelable c rounds)[k]? = some recs)
    (hne : recs ≠ []) : (∃ s, LiveFrom c rounds s k ∧ recs =
        recordsOf (passWaiting cancelable c rounds s k) (timed r.anchor (passItems cancelable c rounds s k))) ∨
      (∀ s, ¬LiveFrom c rounds s k) ∧ recs = staleRecords r.anchor (r.items c) := by
  by_cases hl : ∃ s, LiveFrom c rounds s k
  · obtain ⟨s, hl⟩ := hl
    rw [reportedFor_live cancelable hr hl, Option.some.injEq] at hrecs
    refine Or.inl ⟨s, hl, ?_⟩
    by_cases hcond : r.commits c ∨ cancelable = false
    · rw [if_pos hcond] at hrecs
      rw [← hrecs, TraceState.pass]
      cases cancelable with
      | true =>
        rw [openState_cancelable]
        simp [TraceState.receive, passWaiting, passItems, between_succ hl.le hr]
      | false =>
        have hbetween : between rounds k (k + 1) = [r] := by
          rw [between_succ (Nat.le_refl k) hr, between_self, List.nil_append]
        simp [TraceState.receive, passWaiting, passItems, hbetween, openState_items, openState_waiting]
    · rw [if_neg hcond] at hrecs
      exact absurd hrecs.symm hne
  · refine Or.inr ⟨fun s hs => hl ⟨s, hs⟩, ?_⟩
    rw [reportedFor_dead cancelable hr fun s hs => hl ⟨s, hs⟩, Option.some.injEq] at hrecs
    cases cancelable with
    | true => exact absurd hrecs.symm hne
    | false => exact hrecs.symm

theorem mem_itemsFor {c : CollectId} {cmds : List CollectCommand} {i : Item} :
    i ∈ itemsFor c cmds ↔ ∃ cmd ∈ submitSpans cmds, ∃ item ∈ cmd.collectToken, item.collectId = c ∧
      i = itemOf cmd.spans item := by
  rw [itemsFor_eq, List.mem_flatMap]
  constructor
  · rintro ⟨cmd, hcmd, hi⟩
    obtain ⟨item, hitem, rfl⟩ := List.mem_map.1 hi
    rw [List.mem_filter, decide_eq_true_iff] at hitem
    exact ⟨cmd, hcmd, item, hitem.1, hitem.2, rfl⟩
  · rintro ⟨cmd, hcmd, item, hitem, hc, rfl⟩
    exact ⟨cmd, hcmd, List.mem_map_of_mem (List.mem_filter.2 ⟨hitem, by simpa using hc⟩)⟩

private theorem received_between_sublist (rounds : List Round) (s k : Nat) :
    (received (between rounds s k)).Sublist (received rounds) :=
  ((List.drop_sublist _ _).trans (List.take_sublist _ _)).flatMap _

theorem submitSpans_sublist {cmds cmds' : List CollectCommand} (h : cmds.Sublist cmds') :
    (submitSpans cmds).Sublist (submitSpans cmds') := h.filterMap _

/-! ### Items of one span -/

section Coherent

variable {subs : List SubmitSpans} {cmd₀ : SubmitSpans} {raw : RawSpan}

/-- The item is made for a token item of one of the submissions. -/
def FromSubs (subs : List SubmitSpans) (i : Item) : Prop :=
  ∃ cmd ∈ subs, ∃ item ∈ cmd.collectToken, i = itemOf cmd.spans item

private theorem eq_of_filter_le_one {α : Type} {p : α → Bool} {l : List α} (h : (l.filter p).length ≤ 1) {a b : α}
    (ha : a ∈ l) (hpa : p a) (hb : b ∈ l) (hpb : p b) : a = b := by
  have ha' : a ∈ l.filter p := List.mem_filter.2 ⟨ha, hpa⟩
  have hb' : b ∈ l.filter p := List.mem_filter.2 ⟨hb, hpb⟩
  match hl : l.filter p, h with
  | [], _ => rw [hl] at ha'; cases ha'
  | [x], _ =>
    rw [hl, List.mem_singleton] at ha' hb'
    rw [ha', hb']
  | _ :: _ :: _, h => rw [List.length_cons, List.length_cons] at h; omega

private theorem spanIds_subset {cmd : SubmitSpans} {item : CollectTokenItem} {x : SpanId}
    (hx : x ∈ (itemOf cmd.spans item).spanIds) : x ∈ cmd.rawIds := by
  obtain ⟨raw, hraw, rfl⟩ := List.mem_map.1 hx
  exact List.mem_map_of_mem (List.mem_of_mem_filter hraw)

private theorem mem_spanIds (hkind : raw.rawKind = .span) {i : Item} (hraw : raw ∈ i.spans.raws) : raw.id ∈ i.spanIds :=
  List.mem_map_of_mem (List.mem_filter.2 ⟨hraw, by simpa using hkind⟩)

/-- An item with the span comes from a copy of its submission. -/
private theorem item_raws (hco : Coherent subs) (hcmd₀ : cmd₀ ∈ subs) (hraw : raw ∈ cmd₀.spans.raws) {i : Item}
    (hi : FromSubs subs i) (hx : raw.id ∈ i.spanIds) :
    (i.spans.raws.map (·.id)).Nodup ∧ i.spans.raws = cmd₀.spans.raws := by
  obtain ⟨cmd, hcmd, item, -, rfl⟩ := hi
  exact ⟨hco.nodup cmd hcmd,
    hco.same cmd hcmd cmd₀ hcmd₀ raw.id (spanIds_subset hx) (List.mem_map_of_mem hraw)⟩

/-- The heads of the span in a pass, one for each replica, have nothing mounted. -/
private theorem replica_heads (hco : Coherent subs) (hcmd₀ : cmd₀ ∈ subs) (hraw : raw ∈ cmd₀.spans.raws)
    (hkind : raw.rawKind = .span) {items : List Item}
    (hitems : ∀ i ∈ items, FromSubs subs i) (anchor : Anchor) :
    (heads (timed anchor items)).filter (·.spanId = raw.id) =
      (items.filter fun i => raw.id ∈ i.spanIds).map fun i => i.record anchor raw := by
  refine filter_heads_eq hkind (fun i hi hx => ?_) anchor
  obtain ⟨hnodup, hraws⟩ := item_raws hco hcmd₀ hraw (hitems i hi) hx
  exact ⟨hnodup, hraws ▸ hraw⟩

private theorem bare_map (anchor : Anchor) (items : List Item) : ∀ h ∈ items.map fun i => i.record anchor raw,
    h.events = [] ∧ h.properties = raw.properties.getD [] := by
  intro h hh
  obtain ⟨i, -, rfl⟩ := List.mem_map.1 hh
  exact ⟨rfl, rfl⟩

/-- A record of the span in a pass comes from a replica. -/
private theorem exists_replica {d : Waiting} {anchor : Anchor} {items : List Item} {rec : SpanRecord}
    (hrec : rec ∈ recordsOf d (timed anchor items)) (hid : rec.spanId = raw.id) :
    (heads (timed anchor items)).filter (·.spanId = raw.id) ≠ [] := by
  intro hnil
  have hfilter : (recordsOf d (timed anchor items)).filter (·.spanId = raw.id) = [] := by
    unfold recordsOf
    rw [filter_mountAll, hnil]
  have hmem : rec ∈ (recordsOf d (timed anchor items)).filter (·.spanId = raw.id) :=
    List.mem_filter.2 ⟨hrec, by simpa using hid⟩
  rw [hfilter] at hmem
  cases hmem

private theorem keyed_timed (anchor : Anchor) (items : List Item) (x : SpanId) :
    keyed (attachments (timed anchor items)) x = items.flatMap fun i => keyed (i.attachments anchor) x := by
  rw [keyed_attachments, timed, List.flatMap_map]

theorem flatMap_filter_of_nil {α β : Type} {p : α → Bool} {f : α → List β} {l : List α}
    (h : ∀ a ∈ l, ¬p a → f a = []) : l.flatMap f = (l.filter p).flatMap f := by
  induction l with
  | nil => rfl
  | cons a l ih =>
    rw [List.forall_mem_cons] at h
    rw [List.flatMap_cons, ih h.2]
    by_cases hp : p a
    · rw [List.filter_cons_of_pos hp, List.flatMap_cons]
    · rw [List.filter_cons_of_neg hp, h.1 hp, List.nil_append]

/-! ### Local spans -/

/-- In an item with the local span, what is attached to the local span is what the set attaches to it; in other items
nothing is. -/
private theorem keyed_local (hco : Coherent subs) (hcmd₀ : cmd₀ ∈ subs) (hset : cmd₀.IsSet)
    (hraw : raw ∈ cmd₀.spans.raws) (hkind : raw.rawKind = .span) {i : Item} (hi : FromSubs subs i)
    (anchor : Anchor) : keyed (i.attachments anchor) raw.id = if raw.id ∈ i.spanIds then
      (attachmentsIn raw.id cmd₀.spans.raws).map (RawSpan.dangling anchor) else [] := by
  obtain ⟨hnonzero, haddressed⟩ := hco.localSpan cmd₀ hcmd₀ hset raw hraw hkind
  have hraws := item_raws hco hcmd₀ hraw hi
  obtain ⟨cmd, hcmd, item, hitem, rfl⟩ := hi
  -- what is addressed to an entry of a set is in that set and names the entry
  rw [keyed_item]
  by_cases hx : raw.id ∈ (itemOf cmd.spans item).spanIds
  · have hisset : cmd.IsSet := by
      intro raw₁ hspan
      have hmem : (⟨.span raw₁, cmd.collectToken⟩ : SubmitSpans) ∈ subs := by rw [← hspan]; exact hcmd
      have hid : raw.id = raw₁.id := by
        have hraw₁ := spanIds_subset hx
        rw [SubmitSpans.rawIds, hspan] at hraw₁
        exact List.mem_singleton.1 hraw₁
      have heq := eq_of_filter_le_one (hco.once raw₁ _ hmem) hmem
        (by simp [SubmitSpans.rawIds, SpanSet.raws]) hcmd₀
        (by rw [decide_eq_true_iff, ← hid]; exact List.mem_map_of_mem hraw)
      exact hset raw₁ (by rw [← heq])
    rw [if_pos hx, attachmentsIn, ← (hraws hx).2]
    congr 1
    apply List.filter_congr
    intro raw' hraw'
    rw [decide_eq_decide]
    refine and_congr_right fun hk => ⟨fun hp => ?_, fun hp => ?_⟩
    · exact (haddressed cmd hcmd item raw' ⟨hitem, hraw', hk, hp⟩).2.2
    · rw [parentOf_set hisset, if_neg (hp ▸ hnonzero), hp]
  · rw [if_neg hx, List.map_eq_nil_iff, List.filter_eq_nil_iff]
    intro raw' hraw' hp
    rw [decide_eq_true_iff] at hp
    obtain ⟨-, hsame, -⟩ := haddressed cmd hcmd item raw' ⟨hitem, hraw', hp.1, hp.2⟩
    have hmem : raw ∈ (itemOf cmd.spans item).spans.raws := by
      change raw ∈ cmd.spans.raws
      rw [hsame]
      exact hraw
    exact hx (mem_spanIds hkind hmem)

/-- Nothing waits for a local span: what is attached to it arrives with it. -/
private theorem waiting_local (hco : Coherent subs) (hcmd₀ : cmd₀ ∈ subs) (hset : cmd₀.IsSet)
    (hraw : raw ∈ cmd₀.spans.raws) (hkind : raw.rawKind = .span) {c : CollectId} {window : List Round}
    (hitems : ∀ r ∈ window, ∀ i ∈ r.items c, FromSubs subs i) {d : Waiting} (hd : d raw.id = []) :
    waitingAfter c d window raw.id = [] := by
  induction window generalizing d with
  | nil => exact hd
  | cons r window ih =>
    rw [List.forall_mem_cons] at hitems
    refine ih hitems.2 ?_
    change leftover d (timed r.anchor (r.items c)) raw.id = []
    unfold leftover
    split
    · rfl
    · rename_i hnot
      rw [gathered, hd, List.nil_append, keyed_timed, List.flatMap_eq_nil_iff]
      intro i hi
      rw [keyed_local hco hcmd₀ hset hraw hkind (hitems.1 i hi), if_neg]
      intro hx
      rw [heads_spanId] at hnot
      exact hnot (List.mem_flatMap.2 ⟨(r.anchor, i), List.mem_map_of_mem hi, hx⟩)

/-- What a pass gathers for a local span: one copy of its attachments for each replica. -/
private theorem gathered_local (hco : Coherent subs) (hcmd₀ : cmd₀ ∈ subs) (hset : cmd₀.IsSet)
    (hraw : raw ∈ cmd₀.spans.raws) (hkind : raw.rawKind = .span) {items : List Item}
    (hitems : ∀ i ∈ items, FromSubs subs i) {d : Waiting} (hd : d raw.id = []) (anchor : Anchor) :
    gathered d (timed anchor items) raw.id = (items.filter fun i => raw.id ∈ i.spanIds).flatMap fun _ =>
      (attachmentsIn raw.id cmd₀.spans.raws).map (RawSpan.dangling anchor) := by
  rw [gathered, hd, List.nil_append, keyed_timed, flatMap_filter_of_nil (p := fun i => raw.id ∈ i.spanIds)]
  · unfold List.flatMap
    congr 1
    apply List.map_congr_left
    intro i hi
    rw [List.mem_filter, decide_eq_true_iff] at hi
    rw [keyed_local hco hcmd₀ hset hraw hkind (hitems i hi.1), if_pos hi.2]
  · intro i hi hx
    rw [decide_eq_true_iff] at hx
    rw [keyed_local hco hcmd₀ hset hraw hkind (hitems i hi), if_neg hx]

/-- The replicas of a local span in one pass carry its attachments exactly when there is only one of them, or nothing
is attached. -/
private theorem local_pass (hco : Coherent subs) (hcmd₀ : cmd₀ ∈ subs) (hset : cmd₀.IsSet)
    (hraw : raw ∈ cmd₀.spans.raws) (hkind : raw.rawKind = .span) {items : List Item}
    (hitems : ∀ i ∈ items, FromSubs subs i) {d : Waiting} (hd : d raw.id = []) {anchor : Anchor}
    (hne : ∃ rec ∈ recordsOf d (timed anchor items), rec.spanId = raw.id) :
    (∀ rec ∈ recordsOf d (timed anchor items), rec.spanId = raw.id →
        Carries rec raw (attachmentsIn raw.id cmd₀.spans.raws)) ↔
      (∀ a ∈ attachmentsIn raw.id cmd₀.spans.raws, ¬a.Attaches) ∨
        (items.filter fun i => raw.id ∈ i.spanIds).length = 1 := by
  obtain ⟨rec, hrec, hid⟩ := hne
  have hheads := replica_heads hco hcmd₀ hraw hkind hitems anchor
  have hgathered := gathered_local hco hcmd₀ hset hraw hkind hitems hd anchor
  have hsome := exists_replica hrec hid
  match hcopies : items.filter (fun i => raw.id ∈ i.spanIds) with
  | [] =>
    rw [hheads, hcopies] at hsome
    exact absurd rfl hsome
  | [i] =>
    -- the only copy takes what is gathered, which is its set's
    rw [hcopies, List.flatMap_singleton] at hgathered
    rw [hcopies] at hheads
    refine (carries_single hheads ⟨rfl, rfl⟩ ((attachmentsIn raw.id cmd₀.spans.raws).map fun a => (anchor, a)) ?_ []
      ?_).trans ?_
    · rw [hgathered, List.map_map]
      rfl
    · simp [Function.comp_def]
    · simp [hcopies]
  | i₁ :: i₂ :: rest =>
    -- the first copy takes the attachments of all, the second has none
    rw [hcopies] at hheads hgathered
    refine (carries_copies hheads (bare_map anchor (i₁ :: i₂ :: rest)) fun a ha => ?_).trans ?_
    · rw [hgathered] at ha
      obtain ⟨-, -, ha⟩ := List.mem_flatMap.1 ha
      obtain ⟨a', ha', rfl⟩ := List.mem_map.1 ha
      exact ⟨anchor, a', ha', rfl⟩
    · simp [hcopies]

/-- A stale copy of a local span carries its attachments: it is post-processed with its set alone. -/
private theorem local_stale (hco : Coherent subs) (hcmd₀ : cmd₀ ∈ subs) (hset : cmd₀.IsSet)
    (hraw : raw ∈ cmd₀.spans.raws) (hkind : raw.rawKind = .span) {items : List Item}
    (hitems : ∀ i ∈ items, FromSubs subs i) {anchor : Anchor} {rec : SpanRecord}
    (hrec : rec ∈ staleRecords anchor items) (hid : rec.spanId = raw.id) :
    Carries rec raw (attachmentsIn raw.id cmd₀.spans.raws) := by
  obtain ⟨i, hi, hrec⟩ := List.mem_flatMap.1 hrec
  have hitem : ∀ i' ∈ [i], FromSubs subs i' := by simpa using hitems i hi
  refine (local_pass (d := fun _ => []) hco hcmd₀ hset hraw hkind hitem rfl ⟨rec, hrec, hid⟩).2 (Or.inr ?_) rec
    hrec hid
  have hsome : (heads (timed anchor [i])).filter (·.spanId = raw.id) ≠ [] := exists_replica hrec hid
  rw [replica_heads hco hcmd₀ hraw hkind hitem] at hsome
  by_cases hx : raw.id ∈ i.spanIds
  · simp [hx]
  · simp [hx] at hsome

/-! ### Spans -/

variable {token : CollectToken} {c : CollectId}

/-- What a submission attaches to a span with one item for `c`, and how the code counts it, once for each item. -/
private theorem keyed_submission (hco : Coherent subs) (hspan : ⟨.span raw, token⟩ ∈ subs)
    (hkind : raw.rawKind = .span) (hone : (token.filter (·.collectId = c)).length = 1) {cmd : SubmitSpans}
    (hcmd : cmd ∈ subs) (anchor : Anchor) :
    ((cmd.collectToken.filter (·.collectId = c)).map (itemOf cmd.spans)).flatMap
        (fun i => keyed (i.attachments anchor) raw.id) =
      (cmd.spans.raws.filter fun raw' => raw'.rawKind ≠ .span ∧
        ∃ item ∈ cmd.collectToken, (itemOf cmd.spans item).parentOf raw' = raw.id).map (RawSpan.dangling anchor) := by
  by_cases hex : ∃ item raw', Addressed cmd item raw' raw.id
  · obtain ⟨item, raw', haddr⟩ := hex
    have hids := (hco.span raw token hkind hspan cmd hcmd item raw' haddr).1
    have hcount : ∀ token' : CollectToken, (token'.filter (·.collectId = c)).length =
        (token'.map (·.collectId)).countP (· = c) := by
      intro token'
      rw [List.countP_map, List.countP_eq_length_filter]
      rfl
    have hone' : (cmd.collectToken.filter (·.collectId = c)).length = 1 := by
      rw [hcount, hids, ← hcount, hone]
    obtain ⟨item₀, hitem₀⟩ := List.length_eq_one_iff.1 hone'
    have hmem₀ : item₀ ∈ cmd.collectToken :=
      List.mem_of_mem_filter (hitem₀ ▸ List.mem_singleton_self item₀ : item₀ ∈ cmd.collectToken.filter _)
    rw [hitem₀, List.map_singleton, List.flatMap_singleton, keyed_item]
    congr 1
    apply List.filter_congr
    intro raw₁ hraw₁
    rw [decide_eq_decide]
    refine and_congr_right fun hk => ⟨fun hp => ⟨item₀, hmem₀, hp⟩, fun hp => ?_⟩
    obtain ⟨item₁, hitem₁, hp⟩ := hp
    exact (hco.span raw token hkind hspan cmd hcmd item₁ raw₁ ⟨hitem₁, hraw₁, hk, hp⟩).2 item₀ hmem₀
  · have hleft : ((cmd.collectToken.filter (·.collectId = c)).map (itemOf cmd.spans)).flatMap
        (fun i => keyed (i.attachments anchor) raw.id) = [] := by
      rw [List.flatMap_eq_nil_iff]
      intro i hi
      obtain ⟨item, hitem, rfl⟩ := List.mem_map.1 hi
      rw [keyed_item, List.map_eq_nil_iff, List.filter_eq_nil_iff]
      intro raw' hraw' hp
      rw [decide_eq_true_iff] at hp
      exact hex ⟨item, raw', List.mem_of_mem_filter hitem, hraw', hp.1, hp.2⟩
    rw [hleft, eq_comm, List.map_eq_nil_iff, List.filter_eq_nil_iff]
    intro raw' hraw' hp
    rw [decide_eq_true_iff] at hp
    obtain ⟨hk, item, hitem, hp⟩ := hp
    exact hex ⟨item, raw', hitem, hraw', hk, hp⟩

/-- What has arrived for a span with one item for `c` in the rounds of a window: its attachments, each once. -/
private theorem keyed_window (hco : Coherent subs) (hspan : ⟨.span raw, token⟩ ∈ subs) (hkind : raw.rawKind = .span)
    (hone : (token.filter (·.collectId = c)).length = 1) {window : List Round}
    (hsubs : ∀ r ∈ window, ∀ cmd ∈ submitSpans r.commands, cmd ∈ subs) (f : Round → Anchor) :
    keyed (attachments (window.flatMap fun r => timed (f r) (r.items c))) raw.id =
      (window.flatMap fun r => (attachmentsOf raw.id r.commands).map fun a => (f r, a)).map
        fun p => p.2.dangling p.1 := by
  rw [keyed_attachments, List.flatMap_assoc, List.map_flatMap]
  unfold List.flatMap
  congr 1
  apply List.map_congr_left
  intro r hr
  change (timed (f r) (r.items c)).flatMap (fun t => keyed (t.2.attachments t.1) raw.id) = _
  rw [← keyed_attachments, keyed_timed, Round.items, itemsFor_eq, List.flatMap_assoc, List.map_map, attachmentsOf,
    List.map_flatMap]
  unfold List.flatMap
  congr 1
  apply List.map_congr_left
  intro cmd hcmd
  exact keyed_submission hco hspan hkind hone (hsubs r hr cmd hcmd) (f r)

private theorem mem_attachmentsOf {x : SpanId} {cmds : List CollectCommand} {a : RawSpan} :
    a ∈ attachmentsOf x cmds ↔ ∃ cmd ∈ submitSpans cmds, ∃ item, Addressed cmd item a x := by
  unfold attachmentsOf
  rw [List.mem_flatMap]
  constructor
  · rintro ⟨cmd, hcmd, ha⟩
    rw [List.mem_filter, decide_eq_true_iff] at ha
    obtain ⟨hraw, hk, item, hitem, hp⟩ := ha
    exact ⟨cmd, hcmd, item, hitem, hraw, hk, hp⟩
  · rintro ⟨cmd, hcmd, item, haddr⟩
    refine ⟨cmd, hcmd, List.mem_filter.2 ⟨haddr.raw_mem, ?_⟩⟩
    rw [decide_eq_true_iff]
    exact ⟨haddr.kind, item, haddr.item_mem, haddr.parent⟩

/-- All that has arrived for a span in a window is one of its attachments. -/
private theorem mem_keyed_window {x : SpanId} {window : List Round} {f : Round → Anchor} {a : DanglingItem}
    (ha : a ∈ keyed (attachments (window.flatMap fun r => timed (f r) (r.items c))) x) :
    ∃ r ∈ window, ∃ a' ∈ attachmentsOf x r.commands, a = a'.dangling (f r) := by
  rw [keyed_attachments] at ha
  obtain ⟨t, ht, ha⟩ := List.mem_flatMap.1 ha
  obtain ⟨r, hr, ht⟩ := List.mem_flatMap.1 ht
  obtain ⟨i, hi, rfl⟩ := List.mem_map.1 ht
  obtain ⟨cmd, hcmd, item, hitem, -, rfl⟩ := mem_itemsFor.1 hi
  rw [keyed_item] at ha
  obtain ⟨a', ha', rfl⟩ := List.mem_map.1 ha
  rw [List.mem_filter, decide_eq_true_iff] at ha'
  exact ⟨r, hr, a', mem_attachmentsOf.2 ⟨cmd, hcmd, item, hitem, ha'.1, ha'.2.1, ha'.2.2⟩, rfl⟩

/-! ### The items of a span in a pass -/

private theorem submitSpans_append (cmds cmds' : List CollectCommand) :
    submitSpans (cmds ++ cmds') = submitSpans cmds ++ submitSpans cmds' := List.filterMap_append

private theorem received_append (rounds rounds' : List Round) :
    received (rounds ++ rounds') = received rounds ++ received rounds' := List.flatMap_append

theorem submitSpans_received (rounds : List Round) :
    submitSpans (received rounds) = rounds.flatMap fun r => submitSpans r.commands := by
  unfold received submitSpans
  rw [List.filterMap_flatMap]

theorem mem_submitSpans_received {rounds : List Round} {r : Round} (hr : r ∈ rounds) {cmd : SubmitSpans}
    (hcmd : cmd ∈ submitSpans r.commands) : cmd ∈ submitSpans (received rounds) := by
  rw [submitSpans_received]
  exact List.mem_flatMap.2 ⟨r, hr, hcmd⟩

/-- The items of a round are made for submissions received. -/
private theorem items_from {rounds : List Round} {r : Round} (hr : r ∈ rounds) {i : Item} (hi : i ∈ r.items c) :
    FromSubs (submitSpans (received rounds)) i := by
  obtain ⟨cmd, hcmd, item, hitem, -, rfl⟩ := mem_itemsFor.1 hi
  exact ⟨cmd, mem_submitSpans_received hr hcmd, item, hitem, rfl⟩

private theorem mem_of_between {rounds : List Round} {s k : Nat} {r : Round} (hr : r ∈ between rounds s k) :
    r ∈ rounds :=
  List.mem_of_mem_take (List.mem_of_mem_drop hr)

private theorem attachmentsOf_append (x : SpanId) (cmds cmds' : List CollectCommand) :
    attachmentsOf x (cmds ++ cmds') = attachmentsOf x cmds ++ attachmentsOf x cmds' := by
  rw [attachmentsOf, submitSpans_append, List.flatMap_append]
  rfl

theorem attachmentsOf_received (x : SpanId) (rounds : List Round) :
    attachmentsOf x (received rounds) = rounds.flatMap fun r => attachmentsOf x r.commands := by
  rw [attachmentsOf, submitSpans_received, List.flatMap_assoc]
  rfl

/-- Only one of two parts has an element that can occur only once. -/
private theorem not_mem_both {α : Type} {p : α → Bool} {l l' : List α} (h : ((l ++ l').filter p).length ≤ 1) {a b : α}
    (ha : a ∈ l) (hpa : p a) (hb : b ∈ l') (hpb : p b) : False := by
  have hl : 0 < (l.filter p).length := List.length_pos_of_mem (List.mem_filter.2 ⟨ha, hpa⟩)
  have hl' : 0 < (l'.filter p).length := List.length_pos_of_mem (List.mem_filter.2 ⟨hb, hpb⟩)
  rw [List.filter_append, List.length_append] at h
  omega

/-- The rounds before, in and after a window. -/
private theorem between_split {rounds : List Round} {s k : Nat} (hs : s ≤ k) :
    rounds = rounds.take s ++ between rounds s k ++ rounds.drop k := by
  have hwindow : rounds.take s ++ between rounds s k = rounds.take k := by
    have hsplit := List.take_append_drop s (rounds.take k)
    rwa [List.take_take, Nat.min_eq_left hs] at hsplit
  rw [hwindow, List.take_append_drop]

/-- An item that can be made for a span comes from a submission with the span. -/
private theorem exists_submission {cmds : List CollectCommand} {i : Item} (hi : i ∈ itemsFor c cmds) {x : SpanId}
    (hx : x ∈ i.spanIds) : ∃ cmd ∈ submitSpans cmds, x ∈ cmd.rawIds := by
  obtain ⟨cmd, hcmd, item, -, -, rfl⟩ := mem_itemsFor.1 hi
  exact ⟨cmd, hcmd, spanIds_subset hx⟩

/-- The only submission of a span makes one item for each of its token items. -/
theorem items_of_span (hkind : raw.rawKind = .span) {cmds : List CollectCommand}
    (honly : (submitSpans cmds).filter (fun cmd => raw.id ∈ cmd.rawIds) = [⟨.span raw, token⟩]) :
    ((itemsFor c cmds).filter fun i => raw.id ∈ i.spanIds) =
      (token.filter (·.collectId = c)).map (itemOf (.span raw)) := by
  rw [itemsFor_eq, List.filter_flatMap, flatMap_filter_of_nil (p := fun cmd => raw.id ∈ cmd.rawIds), honly,
    List.flatMap_singleton, List.filter_eq_self]
  · intro i hi
    obtain ⟨item, -, rfl⟩ := List.mem_map.1 hi
    rw [decide_eq_true_iff]
    exact mem_spanIds hkind (List.mem_singleton_self raw)
  · intro cmd _ hnot
    rw [List.filter_eq_nil_iff]
    intro i hi hx
    obtain ⟨item, -, rfl⟩ := List.mem_map.1 hi
    rw [decide_eq_true_iff] at hx hnot
    exact hnot (spanIds_subset hx)

/-- Commands that bring a span bring its only submission. -/
theorem only_submission (hco : Coherent subs) {cmds : List CollectCommand}
    (hsub : (submitSpans cmds).Sublist subs) (hspan : ⟨.span raw, token⟩ ∈ submitSpans cmds) :
    (submitSpans cmds).filter (fun cmd => raw.id ∈ cmd.rawIds) = [⟨.span raw, token⟩] := by
  have hle := le_trans (hsub.filter fun cmd => raw.id ∈ cmd.rawIds).length_le
    (hco.once raw token (hsub.subset hspan))
  have hmem : ⟨.span raw, token⟩ ∈ (submitSpans cmds).filter (fun cmd => raw.id ∈ cmd.rawIds) :=
    List.mem_filter.2 ⟨hspan, by simp [SubmitSpans.rawIds, SpanSet.raws]⟩
  obtain ⟨cmd, hcmd⟩ := List.length_eq_one_iff.1 (Nat.le_antisymm hle (List.length_pos_of_mem hmem))
  rw [hcmd, List.mem_singleton] at hmem
  rw [hcmd, hmem]

section Pass

variable {rounds : List Round} {cancelable : Bool} {s k : Nat} {r : Round}

/-- The items of a pass are those of the submissions in its rounds. -/
private theorem passItems_eq (cancelable : Bool) (c : CollectId) (rounds : List Round) (s k : Nat) :
    passItems cancelable c rounds s k =
      itemsFor c (received (between rounds (if cancelable then s else k) (k + 1))) :=
  (itemsFor_received c _).symm

/-- A pass over a span with a single submission has one replica for each token item. -/
private theorem replicas_of_span (hco : Coherent (submitSpans (received rounds)))
    (hspan : ⟨.span raw, token⟩ ∈ submitSpans (received rounds)) (hkind : raw.rawKind = .span)
    (hsome : replicas cancelable c rounds s k raw.id ≠ []) :
    replicas cancelable c rounds s k raw.id = (token.filter (·.collectId = c)).map (itemOf (.span raw)) := by
  unfold replicas at hsome ⊢
  rw [passItems_eq] at hsome ⊢
  apply items_of_span hkind
  have hsub := submitSpans_sublist (received_between_sublist rounds (if cancelable then s else k) (k + 1))
  obtain ⟨i, hi⟩ := List.exists_mem_of_ne_nil _ hsome
  rw [List.mem_filter, decide_eq_true_iff] at hi
  obtain ⟨cmd, hcmd, hx⟩ := exists_submission hi.1 hi.2
  have heq : cmd = ⟨.span raw, token⟩ :=
    eq_of_filter_le_one (hco.once raw token hspan) (hsub.subset hcmd) (by simpa using hx) hspan
      (by simp [SubmitSpans.rawIds, SpanSet.raws])
  exact only_submission hco hsub (heq ▸ hcmd)

/-- A span with a replica in a pass has had no item in the rounds before. -/
private theorem not_mem_before (hco : Coherent (submitSpans (received rounds)))
    (hspan : ⟨.span raw, token⟩ ∈ submitSpans (received rounds)) (hle : s ≤ k)
    (hr : rounds[k]? = some r) (hsome : replicas false c rounds s k raw.id ≠ []) :
    raw.id ∉ (heads (timedItems c (between rounds s k))).map SpanRecord.spanId := by
  intro hx
  obtain ⟨i, hi⟩ := List.exists_mem_of_ne_nil _ hsome
  unfold replicas at hi
  rw [passItems_eq, List.mem_filter, decide_eq_true_iff] at hi
  obtain ⟨cmd, hcmd, hcmdx⟩ := exists_submission hi.1 hi.2
  rw [heads_spanId] at hx
  obtain ⟨t, ht, hxt⟩ := List.mem_flatMap.1 hx
  obtain ⟨r', hr', ht⟩ := List.mem_flatMap.1 ht
  obtain ⟨i', hi', rfl⟩ := List.mem_map.1 ht
  have hi'' : i' ∈ itemsFor c (received (between rounds s k)) := by
    rw [itemsFor_received]
    exact List.mem_flatMap.2 ⟨r', hr', hi'⟩
  obtain ⟨cmd', hcmd', hcmdx'⟩ := exists_submission hi'' hxt
  have hwindow : (submitSpans (received (between rounds s k)) ++ submitSpans (received [r])).Sublist
      (submitSpans (received rounds)) := by
    rw [← submitSpans_append, ← received_append, ← between_succ hle hr]
    exact submitSpans_sublist (received_between_sublist rounds s (k + 1))
  rw [if_neg (by decide), between_succ (Nat.le_refl k) hr, between_self, List.nil_append] at hcmd
  exact not_mem_both (le_trans (hwindow.filter _).length_le (hco.once raw token hspan)) hcmd'
    (by simpa using hcmdx') hcmd (by simpa using hcmdx)

/-- What a pass gathers for a span: all that has arrived since the start of the collector. -/
private theorem gathered_pass (hle : s ≤ k) (hr : rounds[k]? = some r) {x : SpanId}
    (hbefore : cancelable = false → x ∉ (heads (timedItems c (between rounds s k))).map SpanRecord.spanId) :
    gathered (passWaiting cancelable c rounds s k) (timed r.anchor (passItems cancelable c rounds s k)) x =
      keyed (attachments ((between rounds s (k + 1)).flatMap fun r' =>
        timed (if cancelable then r.anchor else r'.anchor) (r'.items c))) x := by
  cases cancelable with
  | true =>
    rw [gathered, passWaiting, if_pos rfl, List.nil_append, passItems, timed_flatMap]
    rfl
  | false =>
    rw [gathered, passWaiting, if_neg (by decide), waitingAfter_of_not_mem (hbefore rfl), List.nil_append, passItems,
      if_neg (by decide), between_succ (Nat.le_refl k) hr, between_self, List.nil_append, between_succ hle hr,
      List.flatMap_append, attachments_append, keyed_append, List.flatMap_singleton, List.flatMap_singleton]
    rfl

/-- All that is attached to a span arrives in the rounds of the window, or adds nothing. -/
private theorem silent_outside (x : SpanId) :
    (∀ a ∈ attachmentsOf x (received (rounds.take s)) ++ attachmentsOf x (received (rounds.drop (k + 1))),
        ¬a.Attaches) ↔
      ∀ (j : Nat) (r : Round), rounds[j]? = some r → (∃ a ∈ attachmentsOf x r.commands, a.Attaches) →
        s ≤ j ∧ j ≤ k := by
  have hpart : ∀ (part : List Round) (a : RawSpan), a ∈ attachmentsOf x (received part) ↔
      ∃ r ∈ part, a ∈ attachmentsOf x r.commands := by
    intro part a
    rw [attachmentsOf_received, List.mem_flatMap]
  constructor
  · rintro h j r hr ⟨a, ha, hattaches⟩
    by_contra hout
    refine h a (List.mem_append.2 ?_) hattaches
    by_cases hj : j < s
    · left
      refine (hpart _ a).2 ⟨r, List.mem_of_getElem? (i := j) ?_, ha⟩
      rw [List.getElem?_take_of_lt hj, hr]
    · right
      refine (hpart _ a).2 ⟨r, List.mem_of_getElem? (i := j - (k + 1)) ?_, ha⟩
      rw [List.getElem?_drop, Nat.add_sub_cancel' (by omega), hr]
  · intro h a ha hattaches
    rcases List.mem_append.1 ha with ha | ha
    · obtain ⟨r, hr, ha⟩ := (hpart _ a).1 ha
      obtain ⟨j, hj, hjr⟩ := List.mem_iff_getElem.1 hr
      rw [List.length_take] at hj
      rw [List.getElem_take] at hjr
      have hwithin := h j r (by rw [List.getElem?_eq_getElem (by omega), hjr]) ⟨a, ha, hattaches⟩
      omega
    · obtain ⟨r, hr, ha⟩ := (hpart _ a).1 ha
      obtain ⟨j, hj⟩ := List.mem_iff_getElem?.1 hr
      rw [List.getElem?_drop] at hj
      have hwithin := h _ r hj ⟨a, ha, hattaches⟩
      omega

private theorem passItems_from : ∀ i ∈ passItems cancelable c rounds s k,
    FromSubs (submitSpans (received rounds)) i := by
  intro i hi
  obtain ⟨r, hr, hi⟩ := List.mem_flatMap.1 hi
  exact items_from (mem_of_between hr) hi

/-- Once the collector is known, the rounds in which it is live are. -/
private theorem arrivedBy_iff (hl : LiveFrom c rounds s k) (x : SpanId) : ArrivedBy c rounds x k ↔
    ∀ (j : Nat) (r : Round), rounds[j]? = some r → (∃ a ∈ attachmentsOf x r.commands, a.Attaches) →
      s ≤ j ∧ j ≤ k := by
  constructor
  · rintro ⟨s', hl', h⟩
    rw [hl.unique hl']
    exact h
  · exact fun h => ⟨s, hl, h⟩

/-- What is attached to a span: what arrives in the window, and the rest. -/
private theorem attachmentsOf_window (rounds : List Round) (hle : s ≤ k) (x : SpanId) (f : Round → Anchor) :
    (attachmentsOf x (received rounds)).Perm
      (((between rounds s (k + 1)).flatMap fun r => (attachmentsOf x r.commands).map fun a => (f r, a)).map (·.2) ++
        (attachmentsOf x (received (rounds.take s)) ++ attachmentsOf x (received (rounds.drop (k + 1))))) := by
  have hwindow : ((between rounds s (k + 1)).flatMap fun r => (attachmentsOf x r.commands).map fun a =>
      (f r, a)).map (·.2) = attachmentsOf x (received (between rounds s (k + 1))) := by
    rw [attachmentsOf_received, List.map_flatMap]
    simp [Function.comp_def]
  have hsplit : attachmentsOf x (received rounds) = attachmentsOf x (received (rounds.take s)) ++
      attachmentsOf x (received (between rounds s (k + 1))) ++
        attachmentsOf x (received (rounds.drop (k + 1))) := by
    rw [← attachmentsOf_append, ← attachmentsOf_append, ← received_append, ← received_append,
      ← between_split (Nat.le_succ_of_le hle)]
  rw [hwindow, hsplit, ← List.append_assoc]
  exact List.perm_append_comm.append_right _

/-- The replicas of a span in a pass of its collector carry the attachments of the span exactly when there is only
one of them and all that adds something has arrived since the start, or nothing does. -/
private theorem span_pass (hco : Coherent (submitSpans (received rounds)))
    (hspan : ⟨.span raw, token⟩ ∈ submitSpans (received rounds)) (hkind : raw.rawKind = .span)
    (hr : rounds[k]? = some r) (hl : LiveFrom c rounds s k)
    (hne : ∃ rec ∈ recordsOf (passWaiting cancelable c rounds s k)
      (timed r.anchor (passItems cancelable c rounds s k)), rec.spanId = raw.id) :
    (∀ rec ∈ recordsOf (passWaiting cancelable c rounds s k) (timed r.anchor (passItems cancelable c rounds s k)),
        rec.spanId = raw.id → Carries rec raw (attachmentsOf raw.id (received rounds))) ↔
      (∀ a ∈ attachmentsOf raw.id (received rounds), ¬a.Attaches) ∨ (token.filter (·.collectId = c)).length = 1 ∧
        ArrivedBy c rounds raw.id k := by
  obtain ⟨rec, hrec, hid⟩ := hne
  have hheads : (heads (timed r.anchor (passItems cancelable c rounds s k))).filter (·.spanId = raw.id) =
      (replicas cancelable c rounds s k raw.id).map fun i => i.record r.anchor raw :=
    replica_heads hco hspan (List.mem_singleton_self raw) hkind passItems_from r.anchor
  have hsome : replicas cancelable c rounds s k raw.id ≠ [] := by
    intro hnil
    exact exists_replica hrec hid (by rw [hheads, hnil]; rfl)
  have hgathered := gathered_pass (x := raw.id) hl.le hr fun hc : cancelable = false =>
    not_mem_before hco hspan hl.le hr (hc ▸ hsome)
  rw [replicas_of_span hco hspan hkind hsome] at hheads hsome
  have hatts := attachmentsOf_window rounds hl.le raw.id fun r' => if cancelable then r.anchor else r'.anchor
  match hcopies : token.filter (·.collectId = c) with
  | [] =>
    rw [hcopies] at hsome
    exact absurd rfl hsome
  | [item] =>
    -- one record: it takes all that has come in the window, and misses the rest
    have hone : (token.filter (·.collectId = c)).length = 1 := by rw [hcopies]; rfl
    rw [keyed_window hco hspan hkind hone fun r' hr' cmd hcmd => mem_submitSpans_received (mem_of_between hr') hcmd]
      at hgathered
    rw [hcopies] at hheads
    rw [carries_single hheads ⟨rfl, rfl⟩ _ hgathered _ hatts, silent_outside, ← arrivedBy_iff hl]
    constructor
    · exact fun h => Or.inr ⟨hone, h⟩
    · rintro (hnone | ⟨-, h⟩)
      · refine (arrivedBy_iff hl raw.id).2 fun j r' hr' ⟨a, ha, hattaches⟩ => absurd hattaches (hnone a ?_)
        rw [attachmentsOf_received]
        exact List.mem_flatMap.2 ⟨r', List.mem_of_getElem? hr', ha⟩
      · exact h
  | item₁ :: item₂ :: rest =>
    -- several records: the second misses whatever adds something
    rw [hcopies] at hheads
    refine (carries_copies hheads (bare_map r.anchor (List.map _ (item₁ :: item₂ :: rest))) fun a ha => ?_).trans ?_
    · rw [hgathered] at ha
      obtain ⟨r', hr', a', ha', rfl⟩ := mem_keyed_window ha
      refine ⟨_, a', hatts.symm.subset (List.mem_append_left _ ?_), rfl⟩
      exact List.mem_map.2 ⟨_, List.mem_flatMap.2 ⟨r', hr', List.mem_map_of_mem ha'⟩, rfl⟩
    · simp [hcopies]

/-- A stale span comes without its attachments: it is post-processed alone. -/
private theorem span_stale (hco : Coherent (submitSpans (received rounds)))
    (hspan : ⟨.span raw, token⟩ ∈ submitSpans (received rounds)) (hkind : raw.rawKind = .span)
    (hr : rounds[k]? = some r) {rec : SpanRecord} (hrec : rec ∈ staleRecords r.anchor (r.items c))
    (hid : rec.spanId = raw.id) : rec.events = [] ∧ rec.properties = raw.properties.getD [] := by
  obtain ⟨i, hi, hrec⟩ := List.mem_flatMap.1 hrec
  obtain ⟨cmd, hcmd, item, hitem, -, rfl⟩ := mem_itemsFor.1 hi
  have hcmd' : cmd ∈ submitSpans (received rounds) := mem_submitSpans_received (List.mem_of_getElem? hr) hcmd
  have hfrom : ∀ i' ∈ [itemOf cmd.spans item], FromSubs (submitSpans (received rounds)) i' := by
    intro i' hi'
    exact ⟨cmd, hcmd', item, hitem, List.mem_singleton.1 hi'⟩
  have hheads := replica_heads hco hspan (List.mem_singleton_self raw) hkind hfrom r.anchor
  have hx : raw.id ∈ (itemOf cmd.spans item).spanIds := by
    by_contra hx
    rw [List.filter_cons_of_neg (by simpa using hx), List.filter_nil, List.map_nil] at hheads
    exact exists_replica (hrec : rec ∈ recordsOf _ (timed r.anchor [itemOf cmd.spans item])) hid hheads
  have hcmd₀ : cmd = ⟨.span raw, token⟩ :=
    eq_of_filter_le_one (hco.once raw token hspan) hcmd' (by simpa using spanIds_subset hx) hspan
      (by simp [SubmitSpans.rawIds, SpanSet.raws])
  subst hcmd₀
  have halone : ∀ rec' ∈ recordsOf (fun _ => []) (timed r.anchor [itemOf (.span raw) item]),
      rec' = (itemOf (.span raw) item).record r.anchor raw := by
    simp [recordsOf, timed, heads, Item.heads, itemOf, SpanSet.raws, hkind, mountAll, gathered, attachments,
      Item.attachments, keyed, mount_nil]
  rw [halone rec hrec]
  exact ⟨rfl, rfl⟩

/-- The records of a span in a round carry the attachments of the span exactly when nothing adds anything, or there is
only one record and all that adds something has arrived at the collector live in the round. -/
theorem span_carries_iff (hco : Coherent (submitSpans (received rounds)))
    (hspan : ⟨.span raw, token⟩ ∈ submitSpans (received rounds)) (hkind : raw.rawKind = .span)
    (hr : rounds[k]? = some r) {recs : List SpanRecord} (hrecs : (reportedFor cancelable c rounds)[k]? = some recs)
    (hne : ∃ rec ∈ recs, rec.spanId = raw.id) :
    (∀ rec ∈ recs, rec.spanId = raw.id → Carries rec raw (attachmentsOf raw.id (received rounds))) ↔
      (∀ a ∈ attachmentsOf raw.id (received rounds), ¬a.Attaches) ∨ (token.filter (·.collectId = c)).length = 1 ∧
        ArrivedBy c rounds raw.id k := by
  obtain ⟨rec, hrec, hid⟩ := hne
  rcases reported_pass hr hrecs (List.ne_nil_of_mem hrec) with ⟨s, hl, rfl⟩ | ⟨hl, rfl⟩
  · exact span_pass hco hspan hkind hr hl ⟨rec, hrec, hid⟩
  · have hcarries : ∀ rec' ∈ staleRecords r.anchor (r.items c), rec'.spanId = raw.id →
        (Carries rec' raw (attachmentsOf raw.id (received rounds)) ↔
          ∀ a ∈ attachmentsOf raw.id (received rounds), ¬a.Attaches) := by
      intro rec' hrec' hid'
      obtain ⟨hevents, hprops⟩ := span_stale hco hspan hkind hr hrec' hid'
      exact carries_bare hevents hprops
    constructor
    · exact fun h => Or.inl ((hcarries rec hrec hid).1 (h rec hrec hid))
    · rintro (hnone | ⟨-, s, hs, -⟩)
      · exact fun rec' hrec' hid' => (hcarries rec' hrec' hid').2 hnone
      · exact absurd hs (hl s)

end Pass

end Coherent

/-- For what a program with fresh ids has submitted, and for each round and trace: the records of a span carry the
attachments of the span, each exactly once, if and only if nothing adds anything, or the span has a single item in the
trace and all that adds something has arrived by that round at the collector live in it.  The records of a local span
carry the attachments of the local span if and only if nothing adds anything or the pass of the live collector has one
copy of the local span. -/
theorem replicas_carry_attachments {T : Type} [DecidableEq T] (as : List (T × Op)) (hfresh : FreshIds as)
    (w : World T) (hrun : Steps.run World.step World.init as = some w) (cancelable : Bool) (rounds : List Round)
    (hreceived : (received rounds).Subperm w.commands) (c : CollectId) (k : Nat) (recs : List SpanRecord)
    (hrecs : (reportedFor cancelable c rounds)[k]? = some recs) :
    (∀ raw token, raw.rawKind = .span → ⟨.span raw, token⟩ ∈ submitSpans (received rounds) →
      (∃ rec ∈ recs, rec.spanId = raw.id) →
      ((∀ rec ∈ recs, rec.spanId = raw.id → Carries rec raw (attachmentsOf raw.id (received rounds))) ↔
        (∀ a ∈ attachmentsOf raw.id (received rounds), ¬a.Attaches) ∨
          (token.filter (·.collectId = c)).length = 1 ∧ ArrivedBy c rounds raw.id k)) ∧
    (∀ cmd raw, cmd ∈ submitSpans (received rounds) → cmd.IsSet → raw ∈ cmd.spans.raws → raw.rawKind = .span →
      (∃ rec ∈ recs, rec.spanId = raw.id) →
      ((∀ rec ∈ recs, rec.spanId = raw.id → Carries rec raw (attachmentsIn raw.id cmd.spans.raws)) ↔
        (∀ a ∈ attachmentsIn raw.id cmd.spans.raws, ¬a.Attaches) ∨
          ∀ s, LiveFrom c rounds s k → (replicas cancelable c rounds s k raw.id).length = 1)) := by
  have hco : Coherent (submitSpans (received rounds)) :=
    (coherent_of_run hfresh hrun).subperm (subperm_submitSpans hreceived)
  have hk := lt_of_reportedFor hrecs
  have hr : rounds[k]? = some rounds[k] := List.getElem?_eq_getElem hk
  refine ⟨fun raw token hkind hspan hne => span_carries_iff hco hspan hkind hr hrecs hne,
    fun cmd raw hcmd hset hraw hkind hne => ?_⟩
  have hne' := hne
  obtain ⟨rec, hrec, hid⟩ := hne
  rcases reported_pass hr hrecs (List.ne_nil_of_mem hrec) with ⟨s, hl, rfl⟩ | ⟨hl, rfl⟩
  · have hwaiting : passWaiting cancelable c rounds s k raw.id = [] := by
      unfold passWaiting
      split
      · rfl
      · exact waiting_local hco hcmd hset hraw hkind (fun r' hr' i hi => items_from (mem_of_between hr') hi) rfl
    refine (local_pass hco hcmd hset hraw hkind passItems_from hwaiting hne').trans (or_congr_right ?_)
    constructor
    · intro hone s' hs'
      rw [← hl.unique hs']
      exact hone
    · exact fun h => h s hl
  · constructor
    · exact fun _ => Or.inr fun s hs => absurd hs (hl s)
    · exact fun _ rec' hrec' hid' =>
        local_stale hco hcmd hset hraw hkind (fun i hi => items_from (List.mem_of_getElem? hr) hi) hrec' hid'

/-! ### Local spans pushed to one span, and to two -/

/-- Local spans with an event, collected under the variable `0`. -/
def localProgram : List (Unit × Op) := [
  ((), .startCollector 0),
  ((), .enterLocal 0 "local" ⟨6⟩ ⟨14⟩),
  ((), .localAddEvent ⟨"local event", none⟩ ⟨7⟩ ⟨15⟩),
  ((), .dropLocal 0 ⟨16⟩),
  ((), .collect 0 0 ⟨17⟩)]

/-- The child gets an event, and the root the local spans. -/
def carriedProgram : List (Unit × Op) :=
  joinProgram ++ [((), .addEvent 1 ⟨"event", none⟩ ⟨5⟩ ⟨13⟩)] ++ localProgram ++
    [((), .pushChildSpans 0 0)] ++ joinDrops

/-- The join gets the event, and the root and the child the local spans. -/
def movedProgram : List (Unit × Op) :=
  joinProgram ++ [((), .addEvent 2 ⟨"event", none⟩ ⟨5⟩ ⟨13⟩)] ++ localProgram ++
    [((), .pushChildSpans 0 0), ((), .pushChildSpans 1 0)] ++ joinDrops

def rawChild : RawSpan := ⟨⟨2⟩, default, ⟨11⟩, "child", none, .span, ⟨21⟩⟩

def rawJoin : RawSpan := ⟨⟨3⟩, default, ⟨12⟩, "join", none, .span, ⟨20⟩⟩

def rawLocal : RawSpan := ⟨⟨6⟩, default, ⟨14⟩, "local", none, .span, ⟨16⟩⟩

def rawLocals : LocalSpansInner := ⟨[rawLocal, ⟨⟨7⟩, ⟨6⟩, ⟨15⟩, "local event", none, .event, .zero⟩], ⟨17⟩⟩

theorem replicas_carry_attachments_single : ∃ recs, (reportedFor false 0 (oneRound carriedProgram))[0]? = some recs ∧
    (∀ rec ∈ recs, rec.spanId = ⟨2⟩ →
      Carries rec rawChild (attachmentsOf ⟨2⟩ (received (oneRound carriedProgram)))) ∧
    ∀ rec ∈ recs, rec.spanId = ⟨6⟩ → Carries rec rawLocal (attachmentsIn ⟨6⟩ rawLocals.spans) := by
  have hlive : LiveFrom 0 (oneRound carriedProgram) 0 0 := (liveFrom_iff rfl).2 ⟨by decide, Or.inl ⟨by decide, rfl⟩⟩
  obtain ⟨hspans, hlocals⟩ := replicas_carry_attachments carriedProgram ⟨by decide, by decide⟩
    (afterProgram carriedProgram) rfl false (oneRound carriedProgram)
    (by rw [oneRound, received, List.flatMap_singleton]) 0 0 _ rfl
  refine ⟨_, rfl, ?_, ?_⟩
  · refine (hspans rawChild [⟨⟨1⟩, ⟨1⟩, 0, false, true⟩] rfl (by decide) (by decide)).2 (Or.inr ⟨rfl, 0, hlive, ?_⟩)
    intro j r hj _
    have hlt : j < 1 := (List.getElem?_eq_some_iff.1 hj).1
    omega
  · refine (hlocals ⟨.sharedLocalSpans rawLocals, [⟨⟨1⟩, ⟨1⟩, 0, false, true⟩]⟩ rawLocal (by decide)
      (by intro raw; simp) (by decide) rfl (by decide)).2 (Or.inr fun s hs => ?_)
    rw [hs.unique hlive]
    decide

/-- What the reporter gets: the first replica has the event of the join twice and the second has none, and so it goes
with the local spans. -/
theorem attachments_moved_to_first :
    FreshIds movedProgram ∧ Steps.run World.step World.init movedProgram = some (afterProgram movedProgram) ∧
      received (oneRound movedProgram) = (afterProgram movedProgram).commands ∧
      ((GlobalCollector.start { cancelable := false }).handleRounds (oneRound movedProgram)).reported.flatten.map
          (fun rec => (rec.spanId, rec.parentId, rec.events.map (·.name))) =
        [(⟨6⟩, ⟨1⟩, ["local event", "local event"]), (⟨6⟩, ⟨2⟩, []), (⟨3⟩, ⟨1⟩, ["event", "event"]), (⟨3⟩, ⟨2⟩, []),
          (⟨2⟩, ⟨1⟩, []), (⟨1⟩, ⟨9⟩, [])] ∧
      ∃ recs, (reportedFor false 0 (oneRound movedProgram))[0]? = some recs ∧
        (¬∀ rec ∈ recs, rec.spanId = ⟨3⟩ →
          Carries rec rawJoin (attachmentsOf ⟨3⟩ (received (oneRound movedProgram)))) ∧
        ¬∀ rec ∈ recs, rec.spanId = ⟨6⟩ → Carries rec rawLocal (attachmentsIn ⟨6⟩ rawLocals.spans) := by
  refine ⟨⟨by decide, by decide⟩, rfl, rfl, by decide, _, rfl, fun h => ?_, fun h => ?_⟩
  · have hfirst := (h _ (List.mem_cons_of_mem _ (List.mem_cons_of_mem _ (List.mem_cons_self ..))) rfl).size
    exact absurd hfirst (by decide)
  · have hfirst := (h _ (List.mem_cons_self ..) rfl).size
    exact absurd hfirst (by decide)

end Fastrace
