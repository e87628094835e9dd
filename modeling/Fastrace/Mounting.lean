import Fastrace.Collector
import Mathlib.Logic.Function.Basic
import Mathlib.Data.List.Basic

/-!
# What one post-processing pass reports

`postprocess_span_collection` walks over raw spans twice: it turns the spans into records and collects the events
and properties in the dangling map, then it mounts the collected attachments on the new records.  Here the same is
said without the hash map and without the shared vector of committed records:

* an `Item` is a span set with the token item it is reported for; `heads` are its records before mounting and
  `attachments` its events and properties, keyed by the span they belong to;
* `recordsOf d ts` are the records of a pass that starts with the danglings `d` and processes `ts`, and
  `leftover d ts` are the danglings it leaves; a pass gives all danglings of an id to its first record with that id.

`postprocess_records` and `postprocess_danglings` say that the code computes these two.
-/

namespace Fastrace

/-- A span set together with the trace and the parent one token item gives it. -/
structure Item where
  spans : SpanSet
  traceId : TraceId
  parentId : SpanId
deriving DecidableEq, Repr

def SpanCollection.item : SpanCollection → Item
  | .owned spans traceId parentId => ⟨spans, traceId, parentId⟩
  | .shared spans traceId parentId => ⟨spans, traceId, parentId⟩

/-- The instant at which a raw span of the set ends; a local span still open ends when its set is collected. -/
def SpanSet.endOf : SpanSet → RawSpan → Instant
  | .span _, raw => raw.endInstant
  | .localSpansInner ls, raw => if raw.endInstant = Instant.zero then ls.endTime else raw.endInstant
  | .sharedLocalSpans ls, raw => if raw.endInstant = Instant.zero then ls.endTime else raw.endInstant

/-- The parent id of a raw span: the item's for a single span and for a root of the set, else its own. -/
def Item.parentOf (i : Item) (raw : RawSpan) : SpanId :=
  match i.spans with
  | .span _ => i.parentId
  | _ => if raw.parentId = default then i.parentId else raw.parentId

/-- The record of a raw span before anything is mounted on it. -/
def Item.record (anchor : Anchor) (i : Item) (raw : RawSpan) : SpanRecord where
  traceId := i.traceId
  spanId := raw.id
  parentId := i.parentOf raw
  beginTimeUnixNs := raw.beginInstant.asUnixNanos anchor
  durationNs := saturatingSub ((i.spans.endOf raw).asUnixNanos anchor) (raw.beginInstant.asUnixNanos anchor)
  name := raw.name
  properties := raw.properties.getD []
  events := []

/-- What a raw span of kind event or properties attaches. -/
def RawSpan.dangling (anchor : Anchor) (raw : RawSpan) : DanglingItem :=
  match raw.rawKind with
  | .event => .event ⟨raw.name, raw.beginInstant.asUnixNanos anchor, raw.properties.getD []⟩
  | _ => .properties (raw.properties.getD [])

/-- An item and the anchor of the call that post-processes it. -/
abbrev TimedItem := Anchor × Item

def Item.heads (anchor : Anchor) (i : Item) : List SpanRecord :=
  (i.spans.raws.filter (·.rawKind = .span)).map (i.record anchor)

def Item.attachments (anchor : Anchor) (i : Item) : List (SpanId × DanglingItem) :=
  (i.spans.raws.filter (·.rawKind ≠ .span)).map fun raw => (i.parentOf raw, raw.dangling anchor)

def heads (ts : List TimedItem) : List SpanRecord := ts.flatMap fun t => t.2.heads t.1

def attachments (ts : List TimedItem) : List (SpanId × DanglingItem) := ts.flatMap fun t => t.2.attachments t.1

/-- The attachments of one span, in their order. -/
def keyed (atts : List (SpanId × DanglingItem)) (x : SpanId) : List DanglingItem :=
  (atts.filter (·.1 = x)).map (·.2)

/-- The attachments waiting for each span. -/
abbrev Waiting := SpanId → List DanglingItem

def Danglings.waiting (d : Danglings) : Waiting := fun x => (d.get? x).getD []

/-- Mounting: the first record of each id takes all that waits for it. -/
def mountAll (d : Waiting) : List SpanRecord → List SpanRecord
  | [] => []
  | r :: rs => r.mount (d r.spanId) :: mountAll (Function.update d r.spanId []) rs

def gathered (d : Waiting) (ts : List TimedItem) : Waiting := fun x => d x ++ keyed (attachments ts) x

def recordsOf (d : Waiting) (ts : List TimedItem) : List SpanRecord := mountAll (gathered d ts) (heads ts)

def leftover (d : Waiting) (ts : List TimedItem) : Waiting := fun x =>
  if x ∈ (heads ts).map SpanRecord.spanId then [] else gathered d ts x

/-! ### Mounting on one record -/

/-- A record with attachments mounted: the events are appended to the events, the properties to the properties. -/
theorem mount_eq (r : SpanRecord) (items : List DanglingItem) :
    r.mount items = { r with
      properties := r.properties ++ items.flatMap DanglingItem.props
      events := r.events ++ items.flatMap DanglingItem.events } := by
  induction items generalizing r with
  | nil => simp [SpanRecord.mount]
  | cons item items ih =>
    cases item with
    | event e => simp [SpanRecord.mount, ih, DanglingItem.props, DanglingItem.events]
    | properties ps => simp [SpanRecord.mount, ih, DanglingItem.props, DanglingItem.events]

@[simp] theorem mount_nil (r : SpanRecord) : r.mount [] = r := rfl

@[simp] theorem mount_spanId (r : SpanRecord) (items : List DanglingItem) : (r.mount items).spanId = r.spanId := by
  rw [mount_eq]

@[simp] theorem bare_mount (r : SpanRecord) (items : List DanglingItem) : (r.mount items).bare = r.bare := by
  rw [mount_eq]; rfl

@[simp] theorem keyed_nil (x : SpanId) : keyed [] x = [] := rfl

theorem mem_keyed {atts : List (SpanId × DanglingItem)} {x : SpanId} {a : DanglingItem} :
    a ∈ keyed atts x ↔ (x, a) ∈ atts := by
  simp [keyed]

theorem keyed_append (l l' : List (SpanId × DanglingItem)) (x : SpanId) :
    keyed (l ++ l') x = keyed l x ++ keyed l' x := by
  simp [keyed]

theorem heads_append (ts ts' : List TimedItem) : heads (ts ++ ts') = heads ts ++ heads ts' := List.flatMap_append

theorem attachments_append (ts ts' : List TimedItem) :
    attachments (ts ++ ts') = attachments ts ++ attachments ts' := List.flatMap_append

/-- What is attached to a span by one item. -/
theorem keyed_item (anchor : Anchor) (i : Item) (x : SpanId) : keyed (i.attachments anchor) x =
    (i.spans.raws.filter fun raw => raw.rawKind ≠ .span ∧ i.parentOf raw = x).map (RawSpan.dangling anchor) := by
  unfold keyed Item.attachments
  rw [List.filter_map, List.map_map, List.filter_filter]
  congr 1
  apply List.filter_congr
  intro raw _
  by_cases hp : i.parentOf raw = x <;> simp [hp]

theorem keyed_attachments (ts : List TimedItem) (x : SpanId) :
    keyed (attachments ts) x = ts.flatMap fun t => keyed (t.2.attachments t.1) x := by
  unfold keyed attachments
  rw [List.filter_flatMap, List.map_flatMap]

theorem keyed_attachments_eq_nil {ts : List TimedItem} {x : SpanId}
    (h : ∀ p ∈ attachments ts, p.1 ≠ x) : keyed (attachments ts) x = [] := by
  unfold keyed
  rw [List.map_eq_nil_iff, List.filter_eq_nil_iff]
  intro p hp
  simpa using h p hp

/-! ### The code computes `recordsOf` and `leftover` -/

private theorem waiting_entryPush (d : Danglings) (k : SpanId) (v : DanglingItem) (x : SpanId) :
    Danglings.waiting (d.entryPush k v) x = d.waiting x ++ keyed [(k, v)] x := by
  unfold Danglings.waiting
  rw [HashMap.getD_entryPush]
  by_cases h : k = x <;> simp [keyed, h]

private theorem amendRaw_spec (anchor : Anchor) (i : Item) (raw : RawSpan) (recs : List SpanRecord)
    (d : Danglings) :
    (amendRaw raw (i.spans.endOf raw) i.traceId (i.parentOf raw) recs d anchor).1 =
        recs ++ ([raw].filter (·.rawKind = .span)).map (i.record anchor) ∧
      ∀ x, (amendRaw raw (i.spans.endOf raw) i.traceId (i.parentOf raw) recs d anchor).2.waiting x =
        d.waiting x ++
          keyed (([raw].filter (·.rawKind ≠ .span)).map fun raw => (i.parentOf raw, raw.dangling anchor)) x := by
  unfold amendRaw
  cases h : raw.rawKind with
  | span => simp [h, Item.record]
  | event =>
    refine ⟨by simp [h], fun x => ?_⟩
    simp only [waiting_entryPush]
    simp [h, RawSpan.dangling]
  | properties =>
    refine ⟨by simp [h], fun x => ?_⟩
    simp only [waiting_entryPush]
    simp [h, RawSpan.dangling]

private theorem amendFold_spec (anchor : Anchor) (i : Item) (raws : List RawSpan) (recs : List SpanRecord)
    (d : Danglings) :
    let out := raws.foldl (fun acc raw =>
      amendRaw raw (i.spans.endOf raw) i.traceId (i.parentOf raw) acc.1 acc.2 anchor) (recs, d)
    out.1 = recs ++ (raws.filter (·.rawKind = .span)).map (i.record anchor) ∧
      ∀ x, out.2.waiting x = d.waiting x ++
        keyed ((raws.filter (·.rawKind ≠ .span)).map fun raw => (i.parentOf raw, raw.dangling anchor)) x := by
  induction raws generalizing recs d with
  | nil => simp
  | cons raw raws ih =>
    have h1 := amendRaw_spec anchor i raw recs d
    have h2 := ih (amendRaw raw (i.spans.endOf raw) i.traceId (i.parentOf raw) recs d anchor).1
      (amendRaw raw (i.spans.endOf raw) i.traceId (i.parentOf raw) recs d anchor).2
    rw [← List.singleton_append, List.foldl_append]
    refine ⟨?_, fun x => ?_⟩
    · rw [List.filter_append, List.map_append, ← List.append_assoc, ← h1.1]
      exact h2.1
    · rw [List.filter_append, List.map_append, keyed_append, ← List.append_assoc, ← h1.2 x]
      exact h2.2 x

/-- Amending one collection appends its heads to the records and its attachments to the danglings. -/
theorem amendCollection_spec (anchor : Anchor) (c : SpanCollection) (recs : List SpanRecord) (d : Danglings) :
    (amendCollection c recs d anchor).1 = recs ++ c.item.heads anchor ∧
      ∀ x, (amendCollection c recs d anchor).2.waiting x =
        d.waiting x ++ keyed (c.item.attachments anchor) x := by
  have h := amendFold_spec anchor c.item c.item.spans.raws recs d
  rcases c with ⟨spans, _, _⟩ | ⟨spans, _, _⟩ <;> cases spans <;> exact h

private theorem amendCollections_spec (anchor : Anchor) (cs : List SpanCollection) (recs : List SpanRecord)
    (d : Danglings) :
    let out := cs.foldl (fun acc c => amendCollection c acc.1 acc.2 anchor) (recs, d)
    out.1 = recs ++ heads (cs.map fun c => (anchor, c.item)) ∧
      ∀ x, out.2.waiting x = gathered d.waiting (cs.map fun c => (anchor, c.item)) x := by
  induction cs generalizing recs d with
  | nil => simp [heads, gathered, attachments]
  | cons c cs ih =>
    have h1 := amendCollection_spec anchor c recs d
    have h2 := ih (amendCollection c recs d anchor).1 (amendCollection c recs d anchor).2
    refine ⟨?_, fun x => ?_⟩
    · rw [List.foldl_cons]
      refine h2.1.trans ?_
      rw [h1.1, List.append_assoc]; rfl
    · rw [List.foldl_cons]
      refine (h2.2 x).trans ?_
      unfold gathered
      rw [h1.2 x, List.append_assoc, ← keyed_append]; rfl

theorem mountAll_nil_waiting {d : Waiting} (h : ∀ x, d x = []) (rs : List SpanRecord) :
    mountAll d rs = rs := by
  induction rs generalizing d with
  | nil => rfl
  | cons r rs ih =>
    rw [mountAll, h, mount_nil, ih]
    intro x
    by_cases hx : x = r.spanId
    · subst hx; simp
    · simp [hx, h]

private theorem waiting_remove (d : Danglings) (k : SpanId) :
    Danglings.waiting (d.remove k) = Function.update d.waiting k [] := by
  funext x
  unfold Danglings.waiting
  rw [HashMap.get?_remove]
  by_cases h : x = k
  · subst h; simp
  · simp [h]

/-- `mount_danglings` mounts as `mountAll` does, and leaves the danglings of the ids without a record. -/
theorem mountDanglings_spec (rs : List SpanRecord) (d : Danglings) :
    (mountDanglings rs d).1 = mountAll d.waiting rs ∧
      ∀ x, (mountDanglings rs d).2.waiting x =
        if x ∈ rs.map SpanRecord.spanId then [] else d.waiting x := by
  induction rs generalizing d with
  | nil => simp [mountDanglings, mountAll]
  | cons r rs ih =>
    unfold mountDanglings
    split
    · -- the early return on an empty map
      rename_i he
      have hd : ∀ x, d.waiting x = [] := fun x => by
        simp [Danglings.waiting, HashMap.get?_of_isEmpty he]
      exact ⟨(mountAll_nil_waiting hd _).symm, fun x => by simp [hd]⟩
    · split
      · rename_i items hi
        have hw : d.waiting r.spanId = items := by simp [Danglings.waiting, hi]
        have h := ih (d.remove r.spanId)
        rw [waiting_remove] at h
        refine ⟨?_, fun x => ?_⟩
        · rw [mountAll, hw, ← h.1]
        · rw [h.2 x]
          by_cases hx : x = r.spanId
          · subst hx; simp
          · simp [hx]
      · rename_i hn
        have hw : d.waiting r.spanId = [] := by simp [Danglings.waiting, hn]
        have hu : Function.update d.waiting r.spanId [] = d.waiting := by
          rw [← hw]; exact Function.update_eq_self _ _
        refine ⟨?_, fun x => ?_⟩
        · rw [mountAll, hw, hu, mount_nil, ← (ih d).1]
        · rw [(ih d).2 x]
          by_cases hx : x = r.spanId
          · subst hx; simp [hw]
          · simp [hx]

/-- A pass appends `recordsOf` to the records committed before and does not touch those. -/
theorem postprocess_records (cs : List SpanCollection) (anchor : Anchor) (recs : List SpanRecord)
    (d : Danglings) :
    (postprocessSpanCollection cs anchor recs d).1 =
      recs ++ recordsOf d.waiting (cs.map fun c => (anchor, c.item)) := by
  have h := amendCollections_spec anchor cs recs d
  unfold postprocessSpanCollection
  simp only
  rw [h.1, List.take_left', List.drop_left', (mountDanglings_spec _ _).1, funext h.2]
  · rfl
  · rfl
  · rfl

theorem postprocess_danglings (cs : List SpanCollection) (anchor : Anchor) (recs : List SpanRecord)
    (d : Danglings) :
    Danglings.waiting (postprocessSpanCollection cs anchor recs d).2 =
      leftover d.waiting (cs.map fun c => (anchor, c.item)) := by
  have h := amendCollections_spec anchor cs recs d
  unfold postprocessSpanCollection
  simp only
  funext x
  rw [(mountDanglings_spec _ _).2 x, h.1, List.drop_left' rfl, h.2 x]
  rfl

/-! ### Consequences -/

/-- The number of properties and events of a record. -/
def SpanRecord.size (r : SpanRecord) : Nat := r.properties.length + r.events.length

/-- What an attachment adds to the size of a record. -/
def DanglingItem.size (a : DanglingItem) : Nat := a.props.length + a.events.length

/-- The attachment adds an event or a property. -/
def DanglingItem.Visible (a : DanglingItem) : Prop := a.events ≠ [] ∨ a.props ≠ []

/-- Losing a first part of the attachments changes the record exactly when that part adds something. -/
theorem mount_append_eq_iff (r : SpanRecord) (l l' : List DanglingItem) :
    r.mount l' = r.mount (l ++ l') ↔ ∀ a ∈ l, ¬a.Visible := by
  have hiff : r.mount l' = r.mount (l ++ l') ↔
      l.flatMap DanglingItem.props = [] ∧ l.flatMap DanglingItem.events = [] := by
    rw [mount_eq, mount_eq]
    simp
  rw [hiff, List.flatMap_eq_nil_iff, List.flatMap_eq_nil_iff]
  constructor
  · rintro ⟨hp, he⟩ a ha (hv | hv)
    · exact hv (he a ha)
    · exact hv (hp a ha)
  · exact fun h => ⟨fun a ha => of_not_not fun hp => h a ha (Or.inr hp),
      fun a ha => of_not_not fun he => h a ha (Or.inl he)⟩

/-- What is mounted on a record waits for its id. -/
theorem mem_mountAll {d : Waiting} {rs : List SpanRecord} {rec : SpanRecord} (h : rec ∈ mountAll d rs) :
    ∃ r ∈ rs, ∃ ds, rec = r.mount ds ∧ ∀ a ∈ ds, a ∈ d r.spanId := by
  induction rs generalizing d with
  | nil => cases h
  | cons r rs ih =>
    rw [mountAll, List.mem_cons] at h
    rcases h with rfl | h
    · exact ⟨r, List.mem_cons_self .., _, rfl, fun a ha => ha⟩
    · obtain ⟨r', hr', ds, rfl, hds⟩ := ih h
      refine ⟨r', List.mem_cons_of_mem _ hr', ds, rfl, fun a ha => ?_⟩
      have := hds a ha
      by_cases hx : r'.spanId = r.spanId
      · rw [hx, Function.update_self] at this
        cases this
      · rwa [Function.update_of_ne hx] at this

/-- In a pass the first record of an id takes all that waits for it. -/
theorem filter_mountAll (d : Waiting) (rs : List SpanRecord) (x : SpanId) :
    (mountAll d rs).filter (·.spanId = x) =
      match rs.filter (·.spanId = x) with
      | [] => []
      | r :: rest => r.mount (d x) :: rest := by
  induction rs generalizing d with
  | nil => rfl
  | cons r rs ih =>
    rw [mountAll]
    by_cases hx : r.spanId = x
    · subst hx
      rw [List.filter_cons_of_pos (by simp), List.filter_cons_of_pos (by simp), ih, Function.update_self]
      cases rs.filter (·.spanId = r.spanId) <;> simp
    · rw [List.filter_cons_of_neg (by simpa using hx), List.filter_cons_of_neg (by simpa using hx), ih,
        Function.update_of_ne (Ne.symm hx)]

private theorem mountAll_bare (d : Waiting) (rs : List SpanRecord) :
    (mountAll d rs).map SpanRecord.bare = rs.map SpanRecord.bare := by
  induction rs generalizing d with
  | nil => rfl
  | cons r rs ih => simp [mountAll, ih]

/-- Up to the attachments the records of a pass are its heads, in order. -/
theorem recordsOf_bare (d : Waiting) (ts : List TimedItem) :
    (recordsOf d ts).map SpanRecord.bare = (heads ts).map SpanRecord.bare := mountAll_bare _ _

private theorem mountAll_nodup (d : Waiting) {rs : List SpanRecord} (h : (rs.map SpanRecord.spanId).Nodup) :
    mountAll d rs = rs.map fun r => r.mount (d r.spanId) := by
  induction rs generalizing d with
  | nil => rfl
  | cons r rs ih =>
    rw [List.map_cons, List.nodup_cons] at h
    rw [mountAll, ih _ h.2, List.map_cons]
    congr 1
    apply List.map_congr_left
    intro r' hr'
    have hne : r'.spanId ≠ r.spanId := fun he => h.1 (he ▸ List.mem_map_of_mem hr')
    rw [Function.update_of_ne hne]

/-- When no id occurs twice every record gets what waits for it. -/
theorem recordsOf_nodup (d : Waiting) {ts : List TimedItem} (h : ((heads ts).map SpanRecord.spanId).Nodup) :
    recordsOf d ts = (heads ts).map fun r => r.mount (gathered d ts r.spanId) := mountAll_nodup _ h

end Fastrace
