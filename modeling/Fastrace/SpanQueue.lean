import Fastrace.Record

/-!
# The queue of raw spans (`local/raw_span.rs`, `local/span_queue.rs`)

A span queue records the local spans, events and properties of one span line.  An entry names its parent by the id in
the register `nextParentId`, which a start sets to the new span and a finish sets back to the parent of the finished
span.  The ids drawn by `SpanId::next_id()` and the clock readings are inputs.

An index out of bounds panics: `none`.  The debug assertions are those of a release build (absent).
-/

namespace Fastrace

/-! ### Raw spans -/

def RawSpan.beginWith (id parentId : SpanId) (beginInstant : Instant) (name : String) (rawKind : RawKind) :
    RawSpan where
  id := id
  parentId := parentId
  beginInstant := beginInstant
  name := name
  properties := none
  rawKind := rawKind
  endInstant := Instant.zero

def RawSpan.endWith (span : RawSpan) (endInstant : Instant) : RawSpan := { span with endInstant := endInstant }

/-- `properties.get_or_insert_with(Properties::default).extend(..)`. -/
def RawSpan.extendProperties (span : RawSpan) (properties : Properties) : RawSpan :=
  { span with properties := some (span.properties.getD [] ++ properties) }

structure Event where
  name : String
  properties : Option Properties
deriving DecidableEq, Repr

/-! ### The queue -/

structure SpanQueue where
  spanQueue : List RawSpan
  capacity : Nat
  nextParentId : Option SpanId
deriving DecidableEq, Repr

structure SpanHandle where
  index : Nat
deriving DecidableEq, Repr

/-- Changing an entry in place leaves what is read of all entries, if it leaves what is read of that one. -/
theorem map_set_same {α β : Type} {l : List α} {f : α → β} {i : Nat} {a a' : α} (h : l[i]? = some a)
    (hf : f a' = f a) : (l.set i a').map f = l.map f := by
  obtain ⟨hi, rfl⟩ := List.getElem?_eq_some_iff.1 h
  have hi' : i < (l.map f).length := by rwa [List.length_map]
  rw [List.map_set, hf, ← List.getElem_map f (h := hi'), List.set_getElem_self]

namespace SpanQueue

def withCapacity (capacity : Nat) : SpanQueue where
  spanQueue := []
  capacity := capacity
  nextParentId := none

/-- `next_parent_id.unwrap_or_default()`. -/
def parentId (q : SpanQueue) : SpanId := q.nextParentId.getD default

def startSpan (q : SpanQueue) (id : SpanId) (now : Instant) (name : String) : Option (SpanHandle × SpanQueue) :=
  if q.spanQueue.length ≥ q.capacity then none
  else
    let span := RawSpan.beginWith id q.parentId now name .span
    some (⟨q.spanQueue.length⟩, { q with spanQueue := q.spanQueue ++ [span], nextParentId := some span.id })

def finishSpan (q : SpanQueue) (handle : SpanHandle) (now : Instant) : Option SpanQueue :=
  match q.spanQueue[handle.index]? with
  | none => none
  | some span => some { q with
      spanQueue := q.spanQueue.set handle.index (span.endWith now)
      nextParentId := (some span.parentId).filter fun id => id ≠ default }

def addEvent (q : SpanQueue) (id : SpanId) (now : Instant) (event : Event) : SpanQueue :=
  if q.spanQueue.length ≥ q.capacity then q
  else
    let span := { RawSpan.beginWith id q.parentId now event.name .event with properties := event.properties }
    { q with spanQueue := q.spanQueue ++ [span] }

def addProperties (q : SpanQueue) (id : SpanId) (properties : Properties) : SpanQueue :=
  if q.spanQueue.length ≥ q.capacity then q
  else
    let span := (RawSpan.beginWith id q.parentId Instant.zero "" .properties).extendProperties properties
    { q with spanQueue := q.spanQueue ++ [span] }

def withProperties (q : SpanQueue) (handle : SpanHandle) (properties : Properties) : Option SpanQueue :=
  match q.spanQueue[handle.index]? with
  | none => none
  | some span => some { q with spanQueue := q.spanQueue.set handle.index (span.extendProperties properties) }

def takeQueue (q : SpanQueue) : List RawSpan := q.spanQueue

def currentParentId (q : SpanQueue) : Option SpanId := q.nextParentId

/-! ### What an operation does -/

/-- The entry that `startSpan`, `addEvent` or `addProperties` pushes: a fresh id, and the register as its parent. -/
structure Pushed (q : SpanQueue) (id : SpanId) (kind : RawKind) (raw : RawSpan) : Prop where
  id_eq : raw.id = id
  parentId_eq : raw.parentId = q.parentId
  kind_eq : raw.rawKind = kind

/-- `raw'` is `raw` with another end instant or other properties. -/
structure SameEntry (raw raw' : RawSpan) : Prop where
  id_eq : raw'.id = raw.id
  parentId_eq : raw'.parentId = raw.parentId
  kind_eq : raw'.rawKind = raw.rawKind

theorem startSpan_cases {q q' : SpanQueue} {id : SpanId} {now : Instant} {name : String} {handle : SpanHandle}
    (h : q.startSpan id now name = some (handle, q')) :
    handle = ⟨q.spanQueue.length⟩ ∧ q.spanQueue.length < q.capacity ∧ ∃ raw, Pushed q id .span raw ∧
      q' = { q with spanQueue := q.spanQueue ++ [raw], nextParentId := some id } := by
  unfold startSpan at h
  split at h
  · cases h
  · rename_i hlt
    cases h
    exact ⟨rfl, by omega, _, ⟨rfl, rfl, rfl⟩, rfl⟩

theorem addEvent_cases (q : SpanQueue) (id : SpanId) (now : Instant) (event : Event) :
    q.capacity ≤ q.spanQueue.length ∧ q.addEvent id now event = q ∨
      q.spanQueue.length < q.capacity ∧ ∃ raw, Pushed q id .event raw ∧
        q.addEvent id now event = { q with spanQueue := q.spanQueue ++ [raw] } := by
  unfold addEvent
  split
  · rename_i hfull
    exact Or.inl ⟨hfull, rfl⟩
  · rename_i hlt
    exact Or.inr ⟨Nat.lt_of_not_le hlt, _, ⟨rfl, rfl, rfl⟩, rfl⟩

theorem addProperties_cases (q : SpanQueue) (id : SpanId) (properties : Properties) :
    q.capacity ≤ q.spanQueue.length ∧ q.addProperties id properties = q ∨
      q.spanQueue.length < q.capacity ∧ ∃ raw, Pushed q id .properties raw ∧
        q.addProperties id properties = { q with spanQueue := q.spanQueue ++ [raw] } := by
  unfold addProperties
  split
  · rename_i hfull
    exact Or.inl ⟨hfull, rfl⟩
  · rename_i hlt
    exact Or.inr ⟨Nat.lt_of_not_le hlt, _, ⟨rfl, rfl, rfl⟩, rfl⟩

theorem finishSpan_cases {q q' : SpanQueue} {handle : SpanHandle} {now : Instant}
    (h : q.finishSpan handle now = some q') : ∃ raw raw', q.spanQueue[handle.index]? = some raw ∧
      SameEntry raw raw' ∧ q' = { q with
        spanQueue := q.spanQueue.set handle.index raw'
        nextParentId := (some raw.parentId).filter fun id => id ≠ default } := by
  unfold finishSpan at h
  split at h
  · cases h
  · rename_i raw hraw
    cases h
    exact ⟨raw, raw.endWith now, hraw, ⟨rfl, rfl, rfl⟩, rfl⟩

theorem withProperties_cases {q q' : SpanQueue} {handle : SpanHandle} {properties : Properties}
    (h : q.withProperties handle properties = some q') : ∃ raw raw', q.spanQueue[handle.index]? = some raw ∧
      SameEntry raw raw' ∧ q' = { q with spanQueue := q.spanQueue.set handle.index raw' } := by
  unfold withProperties at h
  split at h
  · cases h
  · rename_i raw hraw
    cases h
    exact ⟨raw, raw.extendProperties properties, hraw, ⟨rfl, rfl, rfl⟩, rfl⟩

/-! ### The links of a queue -/

/-- The ids of all entries. -/
def ids (q : SpanQueue) : List SpanId := q.spanQueue.map (·.id)

/-- The `i`-th entry of the queue is a span with the id `x`. -/
def IsSpan (l : List RawSpan) (i : Nat) (x : SpanId) : Prop :=
  ∃ raw, l[i]? = some raw ∧ raw.id = x ∧ raw.rawKind = .span

/-- Among distinct ids, entries with the same id are at the same position. -/
theorem eq_of_id_eq {l : List RawSpan} (hnodup : (l.map (·.id)).Nodup) {i j : Nat} {raw raw' : RawSpan}
    (hi : l[i]? = some raw) (hj : l[j]? = some raw') (hid : raw.id = raw'.id) : i = j := by
  have hlt : i < (l.map (·.id)).length := by
    rw [List.length_map]
    exact (List.getElem?_eq_some_iff.1 hi).1
  refine (List.getElem?_inj hlt hnodup).1 ?_
  rw [List.getElem?_map, List.getElem?_map, hi, hj, Option.map_some, Option.map_some, hid]

/-- Links point backwards: the parent of an entry is the default id or an earlier entry of kind `Span`. -/
def LinkedBack (l : List RawSpan) : Prop :=
  ∀ i raw, l[i]? = some raw → raw.parentId = default ∨ ∃ j < i, IsSpan l j raw.parentId

/-- An entry whose id is named as a parent is an earlier span, and no event, properties or later entry. -/
theorem LinkedBack.parent {l : List RawSpan} (h : LinkedBack l) (hnodup : (l.map (·.id)).Nodup) {i j : Nat}
    {raw raw' : RawSpan} (hi : l[i]? = some raw) (hj : l[j]? = some raw') (hne : raw.id ≠ default)
    (hparent : raw'.parentId = raw.id) : i < j ∧ raw.rawKind = .span := by
  rcases h j raw' hj with hdefault | ⟨k, hk, span, hspan, hid, hkind⟩
  · exact absurd (hparent.symm.trans hdefault) hne
  · have hsame : raw.id = span.id := hparent.symm.trans hid.symm
    obtain rfl := eq_of_id_eq hnodup hi hspan hsame
    rw [hi] at hspan
    cases hspan
    exact ⟨hk, hkind⟩

/-- What the operations keep, in any order, on non-zero ids. -/
structure Linked (q : SpanQueue) : Prop where
  back : LinkedBack q.spanQueue
  register : ∀ x, q.nextParentId = some x → ∃ i, IsSpan q.spanQueue i x

theorem linked_withCapacity (capacity : Nat) : (withCapacity capacity).Linked where
  back i raw h := by simp [withCapacity] at h
  register x h := by cases h

private theorem isSpan_append {l : List RawSpan} {i : Nat} {x : SpanId} (l' : List RawSpan) (h : IsSpan l i x) :
    IsSpan (l ++ l') i x := by
  obtain ⟨raw, hraw, hx⟩ := h
  have hlt := (List.getElem?_eq_some_iff.1 hraw).1
  exact ⟨raw, by rw [List.getElem?_append_left hlt, hraw], hx⟩

/-- The register is the default id or the id of a span of the queue. -/
private theorem Linked.parentId {q : SpanQueue} (h : q.Linked) :
    q.parentId = default ∨ ∃ i < q.spanQueue.length, IsSpan q.spanQueue i q.parentId := by
  unfold SpanQueue.parentId
  cases hn : q.nextParentId with
  | none => exact Or.inl rfl
  | some x =>
    obtain ⟨i, raw, hraw, hx⟩ := h.register x hn
    exact Or.inr ⟨i, (List.getElem?_eq_some_iff.1 hraw).1, raw, hraw, hx⟩

private theorem linkedBack_push {q : SpanQueue} (h : q.Linked) {raw : RawSpan} (hraw : raw.parentId = q.parentId) :
    LinkedBack (q.spanQueue ++ [raw]) := by
  intro i raw' hi
  rcases Nat.lt_or_ge i q.spanQueue.length with hlt | hge
  · rw [List.getElem?_append_left hlt] at hi
    rcases h.back i raw' hi with hd | ⟨j, hj, hs⟩
    · exact Or.inl hd
    · exact Or.inr ⟨j, hj, isSpan_append _ hs⟩
  · rw [List.getElem?_append_right hge] at hi
    obtain ⟨hi0, rfl⟩ : i - q.spanQueue.length = 0 ∧ raw = raw' := by
      cases hk : i - q.spanQueue.length with
      | zero => rw [hk] at hi; exact ⟨rfl, by simpa using hi⟩
      | succ n => rw [hk] at hi; simp at hi
    rw [hraw]
    rcases h.parentId with hd | ⟨j, hj, hs⟩
    · exact Or.inl hd
    · exact Or.inr ⟨j, by omega, isSpan_append _ hs⟩

/-- A push that leaves the register or, for a span, sets it to the new entry. -/
theorem Linked.push {q : SpanQueue} (h : q.Linked) {id : SpanId} {kind : RawKind} {raw : RawSpan}
    (hraw : Pushed q id kind raw) {next : Option SpanId}
    (hnext : next = q.nextParentId ∨ kind = .span ∧ next = some id) :
    Linked { q with spanQueue := q.spanQueue ++ [raw], nextParentId := next } where
  back := linkedBack_push h hraw.parentId_eq
  register := by
    rintro x hx
    rcases hnext with rfl | ⟨rfl, rfl⟩
    · obtain ⟨i, hi⟩ := h.register x hx
      exact ⟨i, isSpan_append _ hi⟩
    · cases hx
      refine ⟨q.spanQueue.length, raw, by simp, hraw.id_eq, hraw.kind_eq⟩

private theorem getElem?_of_set_same {l : List RawSpan} {i : Nat} {raw raw' : RawSpan} (hraw : l[i]? = some raw)
    (hsame : SameEntry raw raw') {j : Nat} {a : RawSpan} (h : (l.set i raw')[j]? = some a) :
    ∃ b, l[j]? = some b ∧ SameEntry b a := by
  rw [List.getElem?_set] at h
  split at h
  · rename_i hij
    subst hij
    split at h
    · cases h; exact ⟨raw, hraw, hsame⟩
    · cases h
  · exact ⟨a, h, rfl, rfl, rfl⟩

private theorem isSpan_set {l : List RawSpan} {i : Nat} {raw raw' : RawSpan} (hraw : l[i]? = some raw)
    (hsame : SameEntry raw raw') {j : Nat} {x : SpanId} (h : IsSpan l j x) : IsSpan (l.set i raw') j x := by
  obtain ⟨b, hb, hx, hk⟩ := h
  by_cases hij : i = j
  · subst hij
    rw [hraw] at hb; cases hb
    exact ⟨raw', List.getElem?_set_self (List.getElem?_eq_some_iff.1 hraw).1, hsame.id_eq.trans hx,
      hsame.kind_eq.trans hk⟩
  · exact ⟨b, by rw [List.getElem?_set_ne hij, hb], hx, hk⟩

theorem Linked.set {q : SpanQueue} (h : q.Linked) {i : Nat} {raw raw' : RawSpan}
    (hraw : q.spanQueue[i]? = some raw) (hsame : SameEntry raw raw') {next : Option SpanId}
    (hnext : next = q.nextParentId ∨ next = (some raw.parentId).filter fun id => id ≠ default) :
    Linked { q with spanQueue := q.spanQueue.set i raw', nextParentId := next } where
  back j a ha := by
    obtain ⟨b, hb, hba⟩ := getElem?_of_set_same hraw hsame ha
    rw [hba.parentId_eq]
    rcases h.back j b hb with hd | ⟨k, hk, hs⟩
    · exact Or.inl hd
    · exact Or.inr ⟨k, hk, isSpan_set hraw hsame hs⟩
  register x hx := by
    rcases hnext with rfl | rfl
    · obtain ⟨j, hj⟩ := h.register x hx
      exact ⟨j, isSpan_set hraw hsame hj⟩
    · change (some raw.parentId).filter (fun id => decide (id ≠ default)) = some x at hx
      obtain ⟨hx, hne⟩ := Option.filter_eq_some_iff.1 hx
      cases hx
      rcases h.back i raw hraw with hd | ⟨j, -, hs⟩
      · simp [hd] at hne
      · exact ⟨j, isSpan_set hraw hsame hs⟩

theorem ids_set {l : List RawSpan} {i : Nat} {raw raw' : RawSpan} (hraw : l[i]? = some raw)
    (hsame : SameEntry raw raw') : (l.set i raw').map (·.id) = l.map (·.id) :=
  map_set_same hraw hsame.id_eq

end SpanQueue

end Fastrace
