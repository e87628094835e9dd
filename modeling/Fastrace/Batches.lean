import Fastrace.Cancelable

/-!
# Independence of the batches

The records of one trace do not depend on how its commands are cut into `handle_commands` batches, nor on the mode:
they are `traceRecords`, each span with its own properties followed by everything attached to it.  With `cancelable`
one pass at the commit sees all items.  Without it every round makes a pass over the items of that round, and what
is attached to a span that has not arrived yet waits in the dangling map (`waitingAfter_of_not_mem`); the passes
together report the same (`windowOut_eq`).
-/

namespace Fastrace

def Item.spanIds (i : Item) : List SpanId := (i.spans.raws.filter (·.rawKind = .span)).map RawSpan.id

/-- The spans to which the events and properties of the item are attached. -/
def Item.attachedTo (i : Item) : List SpanId := (i.spans.raws.filter (·.rawKind ≠ .span)).map i.parentOf

theorem heads_spanId (ts : List TimedItem) :
    (heads ts).map SpanRecord.spanId = ts.flatMap fun t => t.2.spanIds := by
  simp [heads, List.map_flatMap, Item.heads, Item.spanIds, Item.record, Function.comp_def]

private theorem attachments_key (ts : List TimedItem) :
    (attachments ts).map (·.1) = ts.flatMap fun t => t.2.attachedTo := by
  simp [attachments, List.map_flatMap, Item.attachments, Item.attachedTo, Function.comp_def]

/-- The records of the items when nothing gets lost: a span has its own properties, then the attached ones, and all
attached events, in the order of submission. -/
def fullRecords (ts : List TimedItem) : List SpanRecord :=
  (heads ts).map fun h => { h with
    properties := h.properties ++ (keyed (attachments ts) h.spanId).flatMap DanglingItem.props
    events := (keyed (attachments ts) h.spanId).flatMap DanglingItem.events }

/-- The same with one clock reading for all items. -/
def traceRecords (anchor : Anchor) (items : List Item) : List SpanRecord := fullRecords (timed anchor items)

/-- The items of `c` received in the rounds of a window, each with the anchor of its round. -/
def timedItems (c : CollectId) (window : List Round) : List TimedItem :=
  window.flatMap fun r => timed r.anchor (r.items c)

/-! ### Clock readings -/

def EventRecord.eraseTimes (e : EventRecord) : EventRecord := { e with timestampUnixNs := 0 }

/-- The record without its clock readings. -/
def SpanRecord.eraseTimes (r : SpanRecord) : SpanRecord :=
  { r with beginTimeUnixNs := 0, durationNs := 0, events := r.events.map EventRecord.eraseTimes }

private theorem head_events {ts : List TimedItem} {h : SpanRecord} (hh : h ∈ heads ts) : h.events = [] := by
  obtain ⟨t, -, ht⟩ := List.mem_flatMap.1 hh
  obtain ⟨raw, -, rfl⟩ := List.mem_map.1 ht
  rfl

private theorem fullRecords_eq_mount (ts : List TimedItem) :
    fullRecords ts = (heads ts).map fun h => h.mount (keyed (attachments ts) h.spanId) := by
  apply List.map_congr_left
  intro h hh
  rw [mount_eq, head_events hh, List.nil_append]

/-- The clock that reads `0`. -/
def stopped (ts : List TimedItem) : List TimedItem := ts.map fun t => (fun _ => 0, t.2)

private theorem eraseTimes_dangling (anchor : Anchor) (raw : RawSpan) :
    (raw.dangling anchor).events.map EventRecord.eraseTimes = (raw.dangling fun _ => 0).events ∧
      (raw.dangling anchor).props = (raw.dangling fun _ => 0).props := by
  unfold RawSpan.dangling
  cases raw.rawKind <;> simp [DanglingItem.events, DanglingItem.props, EventRecord.eraseTimes,
    Instant.asUnixNanos]

private theorem eraseTimes_attachments (ts : List TimedItem) (x : SpanId) :
    ((keyed (attachments ts) x).flatMap DanglingItem.events).map EventRecord.eraseTimes =
        (keyed (attachments (stopped ts)) x).flatMap DanglingItem.events ∧
      (keyed (attachments ts) x).flatMap DanglingItem.props =
        (keyed (attachments (stopped ts)) x).flatMap DanglingItem.props := by
  have hitem : ∀ t : TimedItem,
      ((keyed (t.2.attachments t.1) x).flatMap DanglingItem.events).map EventRecord.eraseTimes =
        (keyed (t.2.attachments fun _ => 0) x).flatMap DanglingItem.events ∧
      (keyed (t.2.attachments t.1) x).flatMap DanglingItem.props =
        (keyed (t.2.attachments fun _ => 0) x).flatMap DanglingItem.props := by
    intro t
    rw [keyed_item, keyed_item]
    simp only [List.flatMap_map, List.map_flatMap, eraseTimes_dangling t.1, and_self]
  rw [keyed_attachments, keyed_attachments, stopped]
  simp only [List.flatMap_assoc, List.flatMap_map, List.map_flatMap, ← (hitem _).2, ← (hitem _).1, and_self]

private theorem stopped_heads (ts : List TimedItem) :
    heads (stopped ts) = (heads ts).map fun h => { h with beginTimeUnixNs := 0, durationNs := 0 } := by
  unfold heads stopped
  rw [List.flatMap_map, List.map_flatMap]
  congr 1
  funext t
  unfold Item.heads
  rw [List.map_map]
  apply List.map_congr_left
  intro raw _
  simp [Item.record, Instant.asUnixNanos, saturatingSub]

/-- Without the clock readings the records are those of the clock that reads `0`. -/
private theorem fullRecords_eraseTimes (ts : List TimedItem) :
    (fullRecords ts).map SpanRecord.eraseTimes = fullRecords (stopped ts) := by
  unfold fullRecords
  rw [stopped_heads, List.map_map, List.map_map]
  apply List.map_congr_left
  intro h _
  have ha := eraseTimes_attachments ts h.spanId
  simp [SpanRecord.eraseTimes, ha.1, ha.2]

/-! ### The passes over a window, without `cancelable` -/

/-- What waits after the rounds of a window when `d` waited before it. -/
def waitingAfter (c : CollectId) (d : Waiting) (window : List Round) : Waiting :=
  window.foldl (fun d r => leftover d (timed r.anchor (r.items c))) d

/-- What the rounds of a window report for `c` when `d` waited before it. -/
def windowOut (c : CollectId) : Waiting → List Round → List SpanRecord
  | _, [] => []
  | d, r :: rs => recordsOf d (timed r.anchor (r.items c)) ++
      windowOut c (leftover d (timed r.anchor (r.items c))) rs

theorem openState_waiting (c : CollectId) (window : List Round) :
    (openState false c window).waiting = waitingAfter c (fun _ => []) window := by
  induction window using List.reverseRecOn with
  | nil => rfl
  | append_singleton window r ih =>
    rw [openState_snoc, openState_items, ih]
    simp [waitingAfter]

private theorem windowOut_snoc (c : CollectId) (d : Waiting) (window : List Round) (r : Round) :
    windowOut c d (window ++ [r]) =
      windowOut c d window ++ recordsOf (waitingAfter c d window) (timed r.anchor (r.items c)) := by
  induction window generalizing d with
  | nil => simp [windowOut, waitingAfter]
  | cons r' window ih => simp [windowOut, waitingAfter, ih]

theorem timedItems_cons (c : CollectId) (r : Round) (window : List Round) :
    timedItems c (r :: window) = timed r.anchor (r.items c) ++ timedItems c window := rfl

/-- What is attached to a span that has not arrived waits for it. -/
theorem waitingAfter_of_not_mem {c : CollectId} {window : List Round} {x : SpanId}
    (hx : x ∉ (heads (timedItems c window)).map SpanRecord.spanId) (d : Waiting) :
    waitingAfter c d window x = d x ++ keyed (attachments (timedItems c window)) x := by
  induction window generalizing d with
  | nil => simp [waitingAfter, timedItems, attachments]
  | cons r window ih =>
    rw [timedItems_cons, heads_append, List.map_append, List.mem_append, not_or] at hx
    refine (ih hx.2 (leftover d (timed r.anchor (r.items c)))).trans ?_
    rw [timedItems_cons, attachments_append, keyed_append, ← List.append_assoc, leftover, if_neg hx.1]
    rfl

/-- Nothing is attached to a span in a later round than the span's own. -/
def AttachedBefore (c : CollectId) : List Round → Prop
  | [] => True
  | r :: rs => (∀ i ∈ r.items c, ∀ x ∈ i.spanIds, ∀ r' ∈ rs, ∀ i' ∈ r'.items c, x ∉ i'.attachedTo) ∧
      AttachedBefore c rs

private theorem keyed_later_eq_nil {c : CollectId} {r : Round} {rs : List Round} {x : SpanId}
    (hx : x ∈ (heads (timed r.anchor (r.items c))).map SpanRecord.spanId)
    (h : ∀ i ∈ r.items c, ∀ x ∈ i.spanIds, ∀ r' ∈ rs, ∀ i' ∈ r'.items c, x ∉ i'.attachedTo) :
    keyed (attachments (timedItems c rs)) x = [] := by
  rw [heads_spanId, List.mem_flatMap] at hx
  obtain ⟨t, ht, hxt⟩ := hx
  obtain ⟨i, hi, rfl⟩ := List.mem_map.1 ht
  apply keyed_attachments_eq_nil
  rintro p hp rfl
  have hp' := List.mem_map_of_mem (f := Prod.fst) hp
  rw [attachments_key, List.mem_flatMap] at hp'
  obtain ⟨t', ht', hxt'⟩ := hp'
  obtain ⟨r', hr', ht'⟩ := List.mem_flatMap.1 ht'
  obtain ⟨i', hi', rfl⟩ := List.mem_map.1 ht'
  exact h i hi _ hxt r' hr' i' hi' hxt'

/-- The passes of a window together mount on every span all that is attached to it. -/
theorem windowOut_eq {c : CollectId} {window : List Round}
    (hids : ((heads (timedItems c window)).map SpanRecord.spanId).Nodup) (hbefore : AttachedBefore c window)
    (d : Waiting) : windowOut c d window = (heads (timedItems c window)).map fun h =>
      h.mount (d h.spanId ++ keyed (attachments (timedItems c window)) h.spanId) := by
  induction window generalizing d with
  | nil => rfl
  | cons r window ih =>
    rw [timedItems_cons, heads_append, List.map_append] at hids
    obtain ⟨hr, hw, hdisj⟩ := List.nodup_append.1 hids
    rw [windowOut, ih hw hbefore.2, recordsOf_nodup _ hr, timedItems_cons, heads_append, List.map_append,
      attachments_append]
    congr 1
    · -- the spans of this round: nothing comes for them later
      apply List.map_congr_left
      intro h hh
      rw [keyed_append, keyed_later_eq_nil (List.mem_map_of_mem hh) hbefore.1, List.append_nil]
      rfl
    · -- the spans of later rounds: what has come for them in this round waits
      apply List.map_congr_left
      intro h hh
      have hnot : h.spanId ∉ (heads (timed r.anchor (r.items c))).map SpanRecord.spanId := fun hm =>
        hdisj _ hm _ (List.mem_map_of_mem hh) rfl
      rw [leftover, if_neg hnot, keyed_append, ← List.append_assoc]
      rfl

/-! ### A whole trace -/

/-- A run in which `c` is started once and committed once and not dropped, no span of `c` is submitted twice, the
start arrives no later and the commit no earlier than any submission, and an attachment no later than its span. -/
structure WholeTrace (c : CollectId) (rounds : List Round) : Prop where
  startOnce : (received rounds).count (.startCollect c) = 1
  commitOnce : (received rounds).count (.commitCollect c) = 1
  noDrop : .dropCollect c ∉ received rounds
  spansOnce : ((rounds.flatMap (·.items c)).flatMap Item.spanIds).Nodup
  startFirst : ∀ (i j : Nat) (r r' : Round), rounds[i]? = some r → r.starts c → rounds[j]? = some r' →
    r'.items c ≠ [] → i ≤ j
  commitLast : ∀ (i j : Nat) (r r' : Round), rounds[i]? = some r → r.items c ≠ [] → rounds[j]? = some r' →
    r'.commits c → i ≤ j
  attachedBefore : ∀ (i j : Nat) (r r' : Round), rounds[i]? = some r → rounds[j]? = some r' →
    ∀ item ∈ r.items c, ∀ x ∈ item.spanIds, ∀ item' ∈ r'.items c, x ∈ item'.attachedTo → j ≤ i

private theorem attachedBefore_of_index {c : CollectId} {rounds : List Round}
    (h : ∀ (i j : Nat) (r r' : Round), rounds[i]? = some r → rounds[j]? = some r' →
      ∀ item ∈ r.items c, ∀ x ∈ item.spanIds, ∀ item' ∈ r'.items c, x ∈ item'.attachedTo → j ≤ i) :
    AttachedBefore c rounds := by
  induction rounds with
  | nil => trivial
  | cons r rs ih =>
    refine ⟨fun i hi x hx r' hr' i' hi' hx' => ?_, ih fun i j r₁ r₂ h₁ h₂ item hi x hx item' hi' hx' => ?_⟩
    · obtain ⟨j, hj⟩ := List.mem_iff_getElem?.1 hr'
      have := h 0 (j + 1) r r' rfl hj i hi x hx i' hi' hx'
      omega
    · have := h (i + 1) (j + 1) r₁ r₂ h₁ h₂ item hi x hx item' hi' hx'
      omega

/-- The round `s` of the start and the round `e` of the commit; nothing is submitted outside of `s, …, e`. -/
private structure Lifespan (c : CollectId) (rounds : List Round) (s e : Nat) : Prop where
  start : ∃ r, rounds[s]? = some r ∧ r.starts c
  startOnly : ∀ (j : Nat) (r : Round), rounds[j]? = some r → r.starts c → j = s
  commitOnly : ∀ (j : Nat) (r : Round), rounds[j]? = some r → (r.commits c ↔ j = e)
  noDrop : ∀ (j : Nat) (r : Round), rounds[j]? = some r → ¬r.drops c
  outside : ∀ (j : Nat) (r : Round), rounds[j]? = some r → j < s ∨ e < j → r.items c = []

private theorem WholeTrace.span {c : CollectId} {rounds : List Round} (h : WholeTrace c rounds) :
    ∃ s e, e < rounds.length ∧ Lifespan c rounds s e := by
  have hstart := Nat.le_of_eq h.startOnce.symm
  have hcommit := Nat.le_of_eq h.commitOnce.symm
  obtain ⟨s, rs, hrs, hs⟩ := mem_received.1 (List.count_pos_iff.1 hstart)
  obtain ⟨e, re, hre, he⟩ := mem_received.1 (List.count_pos_iff.1 hcommit)
  refine ⟨s, e, (List.getElem?_eq_some_iff.1 hre).1, ⟨rs, hrs, hs⟩, fun j r hr hj => ?_, fun j r hr => ⟨?_, ?_⟩,
    fun j r hr hd => ?_, fun j r hr hj => ?_⟩
  · exact round_unique (Nat.le_of_eq h.startOnce) hr hj hrs hs
  · exact fun hc => round_unique (Nat.le_of_eq h.commitOnce) hr hc hre he
  · rintro rfl; rw [hr] at hre; cases hre; exact he
  · exact h.noDrop (mem_received.2 ⟨j, r, hr, hd⟩)
  · by_contra hne
    have h1 := h.startFirst s j rs r hrs hs hr hne
    have h2 := h.commitLast j e r re hr hne hre he
    omega

private theorem Lifespan.live {c : CollectId} {rounds : List Round} {s e k : Nat} (h : Lifespan c rounds s e)
    (h1 : s ≤ k) (h2 : k ≤ e) : LiveFrom c rounds s k := by
  refine ⟨h1, h.start, fun j r hj _ hr hs => ?_, fun j r _ _ hr => h.noDrop j r hr, fun j r _ hj hr hc => ?_⟩
  · have := h.startOnly j r hr hs; omega
  · have := (h.commitOnly j r hr).1 hc; omega

private theorem recordsOf_timed_nil (d : Waiting) (anchor : Anchor) : recordsOf d (timed anchor []) = [] := rfl

/-- Outside of the rounds from the start to the commit nothing is reported. -/
private theorem Lifespan.reported_outside {c : CollectId} {rounds : List Round} {s e k : Nat} {r : Round}
    (h : Lifespan c rounds s e) (hr : rounds[k]? = some r) (hk : k < s ∨ e < k) (cancelable : Bool) :
    (reportedFor cancelable c rounds)[k]? = some [] := by
  have hi := h.outside k r hr hk
  by_cases hl : ∃ s', LiveFrom c rounds s' k
  · obtain ⟨s', hl⟩ := hl
    have hc : ¬r.commits c := fun hc => by
      obtain ⟨r', hr', hs⟩ := hl.start
      have := h.startOnly s' r' hr' hs
      have := (h.commitOnly k r hr).1 hc
      have := hl.le
      omega
    rw [reportedFor_live cancelable hr hl]
    cases cancelable with
    | true => simp [hc]
    | false => simp [hi, TraceState.pass, openState_items, recordsOf_timed_nil]
  · rw [reportedFor_dead cancelable hr fun s' hs => hl ⟨s', hs⟩, hi]
    cases cancelable <;> rfl

private theorem between_outside {rounds : List Round} {s e k : Nat} (hk : k < s ∨ e < k) :
    between rounds s (min (k + 1) (e + 1)) = between rounds s (min k (e + 1)) := by
  rcases hk with hk | hk
  · unfold between
    rw [List.drop_eq_nil_of_le (by rw [List.length_take]; omega),
      List.drop_eq_nil_of_le (by rw [List.length_take]; omega)]
  · rw [Nat.min_eq_right (by omega), Nat.min_eq_right (by omega)]

private theorem between_inside {rounds : List Round} {s e k : Nat} {r : Round} (hr : rounds[k]? = some r)
    (h1 : s ≤ k) (h2 : k ≤ e) :
    between rounds s (min (k + 1) (e + 1)) = between rounds s (min k (e + 1)) ++ [r] := by
  rw [Nat.min_eq_left (by omega), Nat.min_eq_left (by omega), between_succ h1 hr]

private theorem Lifespan.items {c : CollectId} {rounds : List Round} {s e : Nat} (h : Lifespan c rounds s e) {k : Nat}
    (hk : k ≤ rounds.length) : (rounds.take k).flatMap (·.items c) =
      (between rounds s (min k (e + 1))).flatMap (·.items c) := by
  induction k with
  | zero => simp [between]
  | succ k ih =>
    have hr : rounds[k]? = some rounds[k] := List.getElem?_eq_getElem hk
    rw [List.take_add_one, hr, Option.toList_some, List.flatMap_append, ih (by omega)]
    by_cases hout : k < s ∨ e < k
    · rw [between_outside hout]
      simp [h.outside k _ hr hout]
    · rw [between_inside hr (by omega) (by omega), List.flatMap_append]

/-- Without `cancelable` the rounds report what the passes over the window report. -/
private theorem Lifespan.reported {c : CollectId} {rounds : List Round} {s e : Nat} (h : Lifespan c rounds s e)
    {k : Nat} (hk : k ≤ rounds.length) : ((reportedFor false c rounds).take k).flatten =
      windowOut c (fun _ => []) (between rounds s (min k (e + 1))) := by
  induction k with
  | zero => simp [between, windowOut]
  | succ k ih =>
    have hr : rounds[k]? = some rounds[k] := List.getElem?_eq_getElem hk
    by_cases hout : k < s ∨ e < k
    · rw [between_outside hout, List.take_add_one, h.reported_outside hr hout false]
      simpa using ih (by omega)
    · rw [between_inside hr (by omega) (by omega), windowOut_snoc, ← ih (by omega), List.take_add_one,
        reportedFor_live false hr (h.live (by omega) (by omega)), Nat.min_eq_left (by omega), ← openState_waiting]
      simp [TraceState.receive, TraceState.pass, openState_items]

/-- With `cancelable` the round of the commit reports all items in one pass. -/
private theorem Lifespan.reported_cancelable {c : CollectId} {rounds : List Round} {s e : Nat}
    (h : Lifespan c rounds s e) {re : Round} (hre : rounds[e]? = some re) {k : Nat} (hk : k ≤ rounds.length) :
    ((reportedFor true c rounds).take k).flatten = if e < k then
      recordsOf (fun _ => []) (timed re.anchor ((between rounds s (e + 1)).flatMap (·.items c))) else [] := by
  induction k with
  | zero => simp
  | succ k ih =>
    have hr : rounds[k]? = some rounds[k] := List.getElem?_eq_getElem hk
    rw [List.take_add_one, List.flatten_append, ih (by omega)]
    by_cases hout : k < s ∨ e < k
    · rw [h.reported_outside hr hout true]
      by_cases he : e < k
      · simp [he, Nat.lt_succ_of_lt he]
      · -- here `k < s`, so either the commit is not reached or it comes before the start
        have hb : e < k + 1 → between rounds s (e + 1) = [] := fun _ => by
          unfold between
          rw [List.drop_eq_nil_of_le]
          rw [List.length_take]
          omega
        by_cases he' : e < k + 1
        · simp [he, he', hb he', recordsOf_timed_nil]
        · simp [he, he']
    · rw [reportedFor_live true hr (h.live (by omega) (by omega)), openState_cancelable]
      by_cases he : k = e
      · subst he
        rw [hr] at hre; cases hre
        rw [between_succ (by omega) hr]
        simp [(h.commitOnly k _ hr).2 rfl, TraceState.receive, TraceState.pass]
      · have hc : ¬rounds[k].commits c := fun hc => he ((h.commitOnly k _ hr).1 hc)
        simp [hc, show ¬e < k by omega, show ¬e < k + 1 by omega]

theorem timed_flatMap (anchor : Anchor) (c : CollectId) (window : List Round) :
    timed anchor (window.flatMap (·.items c)) = window.flatMap fun r => timed anchor (r.items c) := by
  simp [timed, List.map_flatMap]

private theorem getElem?_of_between {rounds : List Round} {s k i : Nat} {r : Round}
    (h : (between rounds s k)[i]? = some r) : rounds[s + i]? = some r := by
  unfold between at h
  rw [List.getElem?_drop, List.getElem?_take] at h
  split at h
  · exact h
  · cases h

theorem itemsFor_received (c : CollectId) (rounds : List Round) :
    itemsFor c (received rounds) = rounds.flatMap (·.items c) := by
  induction rounds with
  | nil => rfl
  | cons r rounds ih =>
    rw [List.flatMap_cons, ← ih]
    simp [received, itemsFor, submissionsFor, submitSpans]

private theorem timedItems_of_anchor {c : CollectId} {window : List Round} {anchor : Anchor}
    (h : ∀ r ∈ window, r.anchor = anchor) : timedItems c window = timed anchor (window.flatMap (·.items c)) := by
  rw [timed_flatMap]
  unfold timedItems List.flatMap
  congr 1
  apply List.map_congr_left
  intro r hr
  rw [h r hr]

private theorem stopped_timed (anchor : Anchor) (items : List Item) :
    stopped (timed anchor items) = timed (fun _ => 0) items := by
  simp [stopped, timed, Function.comp_def]

private theorem stopped_timedItems (c : CollectId) (window : List Round) :
    stopped (timedItems c window) = timed (fun _ => 0) (window.flatMap (·.items c)) := by
  rw [timed_flatMap]
  unfold stopped timedItems
  rw [List.map_flatMap]
  congr 1
  funext r
  exact stopped_timed r.anchor _

/-- The records of a whole trace are those of its items, each read with some clock of the run. -/
private theorem WholeTrace.records {c : CollectId} {rounds : List Round} (h : WholeTrace c rounds)
    (cancelable : Bool) : ∃ ts, (reportedFor cancelable c rounds).flatten = fullRecords ts ∧
      stopped ts = timed (fun _ => 0) (rounds.flatMap (·.items c)) ∧
      ∀ anchor, (∀ r ∈ rounds, r.anchor = anchor) → ts = timed anchor (rounds.flatMap (·.items c)) := by
  obtain ⟨s, e, he, hspan⟩ := h.span
  have hre : rounds[e]? = some rounds[e] := List.getElem?_eq_getElem he
  have hlen := reportedFor_length cancelable c rounds
  have hitems : rounds.flatMap (·.items c) = (between rounds s (e + 1)).flatMap (·.items c) := by
    have := hspan.items (Nat.le_refl _)
    rwa [List.take_length, Nat.min_eq_right (by omega)] at this
  have hwin : ∀ r ∈ between rounds s (e + 1), r ∈ rounds := by
    intro r hr
    obtain ⟨j, -, -, hj⟩ := mem_between hr
    exact List.mem_of_getElem? hj
  have hids : ((between rounds s (e + 1)).flatMap fun r => (r.items c).flatMap Item.spanIds).Nodup := by
    rw [← List.flatMap_assoc, ← hitems]
    exact h.spansOnce
  rw [← List.take_of_length_le (Nat.le_of_eq hlen), hitems]
  cases cancelable with
  | true =>
    -- one pass over all items, with the clock of the commit
    refine ⟨timed rounds[e].anchor ((between rounds s (e + 1)).flatMap (·.items c)), ?_, stopped_timed _ _, ?_⟩
    · rw [hspan.reported_cancelable hre (Nat.le_refl _), if_pos he, recordsOf_nodup, fullRecords_eq_mount]
      · rfl
      · rw [heads_spanId, timed, List.flatMap_map, List.flatMap_assoc]
        exact hids
    · intro anchor ha
      rw [ha _ (List.getElem_mem he)]
  | false =>
    -- a pass in every round, each with its own clock
    refine ⟨timedItems c (between rounds s (e + 1)), ?_, stopped_timedItems c _, fun anchor ha =>
      timedItems_of_anchor fun r hr => ha r (hwin r hr)⟩
    rw [hspan.reported (Nat.le_refl _), Nat.min_eq_right (by omega), windowOut_eq, fullRecords_eq_mount]
    · rfl
    · rw [heads_spanId, timedItems, List.flatMap_assoc]
      simpa [timed, List.flatMap_map] using hids
    · apply attachedBefore_of_index
      intro i j r r' hi hj item hitem x hx item' hitem' hx'
      have := h.attachedBefore _ _ r r' (getElem?_of_between hi) (getElem?_of_between hj) item hitem x hx item'
        hitem' hx'
      omega

/-- Up to the clock readings the records of a whole trace are those of its items. -/
theorem WholeTrace.eraseTimes {c : CollectId} {rounds : List Round} (h : WholeTrace c rounds) (cancelable : Bool) :
    (reportedFor cancelable c rounds).flatten.map SpanRecord.eraseTimes =
      traceRecords (fun _ => 0) (itemsFor c (received rounds)) := by
  obtain ⟨ts, hrec, hstop, -⟩ := h.records cancelable
  rw [itemsFor_received, hrec, fullRecords_eraseTimes, hstop]
  rfl

/-- Batch independence.  The records of a trace, in either mode and for every way of cutting its commands into
rounds, are those of its items: up to the clock readings always, and exactly when the rounds read one clock. -/
theorem batching_irrelevant (cancelable : Bool) (c : CollectId) (rounds : List Round) (h : WholeTrace c rounds) :
    (reportedFor cancelable c rounds).flatten.map SpanRecord.eraseTimes =
        traceRecords (fun _ => 0) (itemsFor c (received rounds)) ∧
      ∀ anchor, (∀ r ∈ rounds, r.anchor = anchor) →
        (reportedFor cancelable c rounds).flatten = traceRecords anchor (itemsFor c (received rounds)) := by
  refine ⟨h.eraseTimes cancelable, fun anchor ha => ?_⟩
  obtain ⟨ts, hrec, -, hanchor⟩ := h.records cancelable
  rw [itemsFor_received, hrec, hanchor anchor ha]
  rfl

private theorem splitRounds_whole : WholeTrace 3 splitRounds where
  startOnce := by decide
  commitOnce := by decide
  noDrop := by decide
  spansOnce := by decide
  startFirst
    | 0, _, _, _, _, _, _, _ => Nat.zero_le _
    | 1, _, _, _, hi, hs, _, _ => by cases hi; exact absurd hs (by decide)
  commitLast
    | _, 0, _, _, _, _, hj, hc => by cases hj; exact absurd hc (by decide)
    | _, 1, _, _, hi, _, _, _ => Nat.le_of_lt_succ (List.getElem?_eq_some_iff.1 hi).1
  attachedBefore
    | 0, 1, r, _, hi, _, item, hitem, _, hx, _, _, _ => by
      have hnone : (r.items 3).flatMap Item.spanIds = [] := by cases hi; decide
      exact absurd (hnone ▸ List.mem_flatMap.2 ⟨item, hitem, hx⟩) List.not_mem_nil
    | 0, 0, _, _, _, _, _, _, _, _, _, _, _ => Nat.le_refl _
    | 1, _, _, _, _, hj, _, _, _, _, _, _, _ => Nat.le_of_lt_succ (List.getElem?_eq_some_iff.1 hj).1

theorem batching_irrelevant_split : (reportedFor false 3 splitRounds).flatten =
    traceRecords (fun i => i.ticks) (itemsFor 3 (received splitRounds)) :=
  (batching_irrelevant false 3 splitRounds splitRounds_whole).2 _ (by simp [splitRounds])

end Fastrace
