import Fastrace.SpanQueue

/-!
# Span lines and the stack of a thread (`local/local_span_line.rs`, `local/local_span_stack.rs`)

A local parent guard or a local collector registers a span line on the stack of its thread; local spans, events and
properties are recorded in the line on top.  `LocalSpanStack.spanLines` lists the lines from the top down.  A handle
that does not fit the top line is recognised by its epoch.

The debug assertions are those of a release build (absent); `none` is a panic where the function returns a value in
every case, and the `None` of the source where it returns an `Option`.
-/

namespace Fastrace

/-! ### Span lines -/

structure LocalSpanHandle where
  spanLineEpoch : Nat
  spanHandle : SpanHandle
deriving DecidableEq, Repr

structure SpanLine where
  spanQueue : SpanQueue
  epoch : Nat
  collectToken : Option CollectToken
  isSampled : Bool
deriving DecidableEq, Repr

namespace SpanLine

def new (capacity : Nat) (spanLineEpoch : Nat) (collectToken : Option CollectToken) : SpanLine where
  spanQueue := SpanQueue.withCapacity capacity
  epoch := spanLineEpoch
  collectToken := collectToken
  isSampled :=
    match collectToken with
    | some token => token.any (·.isSampled)
    | none => true

def startSpan (line : SpanLine) (id : SpanId) (now : Instant) (name : String) : Option (LocalSpanHandle × SpanLine) :=
  if !line.isSampled then none
  else (line.spanQueue.startSpan id now name).map fun p => (⟨line.epoch, p.1⟩, { line with spanQueue := p.2 })

def finishSpan (line : SpanLine) (handle : LocalSpanHandle) (now : Instant) : Option SpanLine :=
  if line.epoch = handle.spanLineEpoch then
    (line.spanQueue.finishSpan handle.spanHandle now).map fun q => { line with spanQueue := q }
  else some line

def addEvent (line : SpanLine) (id : SpanId) (now : Instant) (event : Event) : SpanLine :=
  if !line.isSampled then line else { line with spanQueue := line.spanQueue.addEvent id now event }

def addProperties (line : SpanLine) (id : SpanId) (properties : Properties) : SpanLine :=
  if !line.isSampled then line else { line with spanQueue := line.spanQueue.addProperties id properties }

def withProperties (line : SpanLine) (handle : LocalSpanHandle) (properties : Properties) : Option SpanLine :=
  if !line.isSampled then some line
  else if line.epoch = handle.spanLineEpoch then
    (line.spanQueue.withProperties handle.spanHandle properties).map fun q => { line with spanQueue := q }
  else some line

def currentCollectToken (line : SpanLine) : Option CollectToken :=
  line.collectToken.map fun collectToken => collectToken.map fun item =>
    { item with parentId := line.spanQueue.currentParentId.getD item.parentId }

def collect (line : SpanLine) (spanLineEpoch : Nat) : Option (List RawSpan × Option CollectToken) :=
  if line.epoch = spanLineEpoch then some (line.spanQueue.takeQueue, line.collectToken) else none

end SpanLine

/-! ### The stack -/

def defaultSpanStackSize : Nat := 1024

def defaultSpanQueueSize : Nat := 1024

structure SpanLineHandle where
  spanLineEpoch : Nat
deriving DecidableEq, Repr

structure LocalSpanStack where
  spanLines : List SpanLine
  capacity : Nat
  nextSpanLineEpoch : Nat
deriving DecidableEq, Repr

namespace LocalSpanStack

def withCapacity (capacity : Nat) : LocalSpanStack where
  spanLines := []
  capacity := capacity
  nextSpanLineEpoch := 0

def enterSpan (s : LocalSpanStack) (id : SpanId) (now : Instant) (name : String) :
    Option (LocalSpanHandle × LocalSpanStack) :=
  match s.spanLines with
  | [] => none
  | line :: lines => (line.startSpan id now name).map fun p => (p.1, { s with spanLines := p.2 :: lines })

def exitSpan (s : LocalSpanStack) (handle : LocalSpanHandle) (now : Instant) : Option LocalSpanStack :=
  match s.spanLines with
  | [] => some s
  | line :: lines => (line.finishSpan handle now).map fun line' => { s with spanLines := line' :: lines }

def addEvent (s : LocalSpanStack) (id : SpanId) (now : Instant) (event : Event) : LocalSpanStack :=
  match s.spanLines with
  | [] => s
  | line :: lines => { s with spanLines := line.addEvent id now event :: lines }

/-- `usize::wrapping_add(1)`, on 64 bits. -/
def wrappingSucc (n : Nat) : Nat := (n + 1) % UInt64.size

def registerSpanLine (s : LocalSpanStack) (collectToken : Option CollectToken) :
    Option (SpanLineHandle × LocalSpanStack) :=
  if s.spanLines.length ≥ s.capacity then none
  else
    let epoch := s.nextSpanLineEpoch
    let spanLine := SpanLine.new defaultSpanQueueSize epoch collectToken
    some (⟨epoch⟩, { s with
      spanLines := spanLine :: s.spanLines
      nextSpanLineEpoch := wrappingSucc s.nextSpanLineEpoch })

/-- The line is popped before its epoch is compared. -/
def unregisterAndCollect (s : LocalSpanStack) (handle : SpanLineHandle) :
    Option (List RawSpan × Option CollectToken) × LocalSpanStack :=
  match s.spanLines with
  | [] => (none, s)
  | line :: lines => (line.collect handle.spanLineEpoch, { s with spanLines := lines })

def addProperties (s : LocalSpanStack) (id : SpanId) (properties : Properties) : LocalSpanStack :=
  match s.spanLines with
  | [] => s
  | line :: lines => { s with spanLines := line.addProperties id properties :: lines }

def withProperties (s : LocalSpanStack) (handle : LocalSpanHandle) (properties : Properties) :
    Option LocalSpanStack :=
  match s.spanLines with
  | [] => some s
  | line :: lines => (line.withProperties handle properties).map fun line' => { s with spanLines := line' :: lines }

def currentCollectToken (s : LocalSpanStack) : Option CollectToken :=
  match s.spanLines with
  | [] => none
  | line :: _ => line.currentCollectToken

end LocalSpanStack

/-! ### What recording in a line does -/

/-- Recording in a line pushes an entry, whose id and kind the label gives, or changes the end or the properties of
an entry. -/
inductive SpanLine.Change (line : SpanLine) : Option (SpanId × RawKind) → SpanLine → Prop
  | push {id : SpanId} {kind : RawKind} {raw : RawSpan} {next : Option SpanId}
      (hraw : SpanQueue.Pushed line.spanQueue id kind raw)
      (hnext : next = line.spanQueue.nextParentId ∨ kind = .span ∧ next = some id) :
      Change line (some (id, kind)) { line with
        spanQueue := { line.spanQueue with spanQueue := line.spanQueue.spanQueue ++ [raw], nextParentId := next } }
  | set {i : Nat} {raw raw' : RawSpan} {next : Option SpanId} (hraw : line.spanQueue.spanQueue[i]? = some raw)
      (hsame : SpanQueue.SameEntry raw raw')
      (hnext : next = line.spanQueue.nextParentId ∨ next = (some raw.parentId).filter fun id => id ≠ default) :
      Change line none { line with
        spanQueue := { line.spanQueue with spanQueue := line.spanQueue.spanQueue.set i raw', nextParentId := next } }

namespace SpanLine

variable {line line' : SpanLine} {label : Option (SpanId × RawKind)}

theorem Change.collectToken (h : line.Change label line') : line'.collectToken = line.collectToken := by
  cases h <;> rfl

theorem Change.epoch_eq (h : line.Change label line') : line'.epoch = line.epoch := by
  cases h <;> rfl

theorem Change.linked (h : line.Change label line') (hl : line.spanQueue.Linked) : line'.spanQueue.Linked := by
  cases h with
  | push hraw hnext => exact hl.push hraw hnext
  | set hraw hsame hnext => exact hl.set hraw hsame hnext

theorem Change.ids (h : line.Change label line') :
    line'.spanQueue.ids = line.spanQueue.ids ++ label.toList.map Prod.fst := by
  cases h with
  | push hraw hnext => simp [SpanQueue.ids, hraw.id_eq]
  | set hraw hsame hnext => simpa [SpanQueue.ids] using SpanQueue.ids_set hraw hsame

/-- Every span of the changed queue was there before or is the one just pushed. -/
theorem Change.spans (h : line.Change label line') {raw : RawSpan} (hraw : raw ∈ line'.spanQueue.spanQueue) :
    (∃ raw' ∈ line.spanQueue.spanQueue, raw'.id = raw.id ∧ raw'.rawKind = raw.rawKind) ∨
      label = some (raw.id, raw.rawKind) := by
  cases h with
  | push hpush hnext =>
    rcases List.mem_append.1 hraw with hold | hnew
    · exact Or.inl ⟨raw, hold, rfl, rfl⟩
    · rw [List.mem_singleton.1 hnew, hpush.id_eq, hpush.kind_eq]
      exact Or.inr rfl
  | set hset hsame hnext =>
    rcases List.mem_or_eq_of_mem_set hraw with hold | rfl
    · exact Or.inl ⟨raw, hold, rfl, rfl⟩
    · exact Or.inl ⟨_, List.mem_of_getElem? hset, hsame.id_eq.symm, hsame.kind_eq.symm⟩

end SpanLine

/-! ### What an operation does to the stack -/

namespace LocalSpanStack

/-- The top line is changed, the other lines are not. -/
def TopChange (s : LocalSpanStack) (label : Option (SpanId × RawKind)) (s' : LocalSpanStack) : Prop :=
  ∃ line lines line', s.spanLines = line :: lines ∧ line.Change label line' ∧
    s' = { s with spanLines := line' :: lines }

variable {s s' : LocalSpanStack}

/-- A local span is recorded only in a line with a sampled item, and always as a new entry; the handle holds the
epoch of the line and the place of the entry. -/
theorem enterSpan_eq_some {id : SpanId} {now : Instant} {name : String} {handle : LocalSpanHandle}
    (h : s.enterSpan id now name = some (handle, s')) : ∃ line lines raw, s.spanLines = line :: lines ∧
      line.isSampled = true ∧ handle = ⟨line.epoch, ⟨line.spanQueue.spanQueue.length⟩⟩ ∧
      line.spanQueue.Pushed id .span raw ∧ s' = { s with spanLines := { line with spanQueue := { line.spanQueue with
        spanQueue := line.spanQueue.spanQueue ++ [raw], nextParentId := some id } } :: lines } := by
  unfold enterSpan at h
  split at h
  · cases h
  · rename_i line lines hlines
    obtain ⟨⟨hd, line'⟩, hline, hs⟩ := Option.map_eq_some_iff.1 h
    unfold SpanLine.startSpan at hline
    split at hline
    · cases hline
    · rename_i hsampled
      obtain ⟨⟨hd', q⟩, hq, heq⟩ := Option.map_eq_some_iff.1 hline
      obtain ⟨hhandle, -, raw, hraw, rfl⟩ := SpanQueue.startSpan_cases hq
      cases heq; cases hs
      exact ⟨line, lines, raw, hlines, by simpa using hsampled, by rw [hhandle], hraw, rfl⟩

theorem enterSpan_cases {id : SpanId} {now : Instant} {name : String} {handle : LocalSpanHandle}
    (h : s.enterSpan id now name = some (handle, s')) : s.TopChange (some (id, .span)) s' := by
  obtain ⟨line, lines, raw, hlines, -, -, hraw, rfl⟩ := enterSpan_eq_some h
  exact ⟨line, lines, _, hlines, .push hraw (Or.inr ⟨rfl, rfl⟩), rfl⟩

theorem exitSpan_cases {handle : LocalSpanHandle} {now : Instant} (h : s.exitSpan handle now = some s') :
    s' = s ∨ s.TopChange none s' := by
  unfold exitSpan at h
  split at h
  · cases h; exact Or.inl rfl
  · rename_i line lines hlines
    obtain ⟨line', hline, rfl⟩ := Option.map_eq_some_iff.1 h
    unfold SpanLine.finishSpan at hline
    split at hline
    · obtain ⟨q, hq, rfl⟩ := Option.map_eq_some_iff.1 hline
      obtain ⟨raw, raw', hraw, hsame, rfl⟩ := SpanQueue.finishSpan_cases hq
      exact Or.inr ⟨line, lines, _, hlines, .set hraw hsame (Or.inr rfl), rfl⟩
    · cases hline
      left; rw [← hlines]

theorem withProperties_cases {handle : LocalSpanHandle} {properties : Properties}
    (h : s.withProperties handle properties = some s') : s' = s ∨ s.TopChange none s' := by
  unfold withProperties at h
  split at h
  · cases h; exact Or.inl rfl
  · rename_i line lines hlines
    obtain ⟨line', hline, rfl⟩ := Option.map_eq_some_iff.1 h
    unfold SpanLine.withProperties at hline
    split at hline
    · cases hline
      left; rw [← hlines]
    · split at hline
      · obtain ⟨q, hq, rfl⟩ := Option.map_eq_some_iff.1 hline
        obtain ⟨raw, raw', hraw, hsame, rfl⟩ := SpanQueue.withProperties_cases hq
        exact Or.inr ⟨line, lines, _, hlines, .set hraw hsame (Or.inl rfl), rfl⟩
      · cases hline
        left; rw [← hlines]

theorem addEvent_cases (s : LocalSpanStack) (id : SpanId) (now : Instant) (event : Event) :
    s.addEvent id now event = s ∨ s.TopChange (some (id, .event)) (s.addEvent id now event) := by
  unfold addEvent
  split
  · exact Or.inl rfl
  · rename_i line lines hlines
    unfold SpanLine.addEvent
    split
    · left; rw [← hlines]
    · rcases SpanQueue.addEvent_cases line.spanQueue id now event with ⟨-, h⟩ | ⟨-, raw, hraw, h⟩
      · left; rw [h, ← hlines]
      · right; rw [h]
        exact ⟨line, lines, _, hlines, .push hraw (Or.inl rfl), rfl⟩

theorem addProperties_cases (s : LocalSpanStack) (id : SpanId) (properties : Properties) :
    s.addProperties id properties = s ∨
      s.TopChange (some (id, .properties)) (s.addProperties id properties) := by
  unfold addProperties
  split
  · exact Or.inl rfl
  · rename_i line lines hlines
    unfold SpanLine.addProperties
    split
    · left; rw [← hlines]
    · rcases SpanQueue.addProperties_cases line.spanQueue id properties with ⟨-, h⟩ | ⟨-, raw, hraw, h⟩
      · left; rw [h, ← hlines]
      · right; rw [h]
        exact ⟨line, lines, _, hlines, .push hraw (Or.inl rfl), rfl⟩

theorem registerSpanLine_cases {collectToken : Option CollectToken} {handle : SpanLineHandle}
    (h : s.registerSpanLine collectToken = some (handle, s')) :
    s'.spanLines = SpanLine.new defaultSpanQueueSize s.nextSpanLineEpoch collectToken :: s.spanLines := by
  unfold registerSpanLine at h
  split at h
  · cases h
  · cases h; rfl

/-- Collecting pops the top line; the queue and token returned are those of the popped line. -/
theorem unregisterAndCollect_cases {handle : SpanLineHandle} {out : Option (List RawSpan × Option CollectToken)}
    (h : s.unregisterAndCollect handle = (out, s')) :
    (s.spanLines = [] ∧ out = none ∧ s' = s) ∨
      ∃ line lines, s.spanLines = line :: lines ∧ s' = { s with spanLines := lines } ∧
        (out = none ∨ out = some (line.spanQueue.spanQueue, line.collectToken)) := by
  unfold unregisterAndCollect at h
  split at h
  · cases h
    exact Or.inl ⟨‹_›, rfl, rfl⟩
  · rename_i line lines hlines
    cases h
    refine Or.inr ⟨line, lines, hlines, rfl, ?_⟩
    unfold SpanLine.collect
    split
    · exact Or.inr rfl
    · exact Or.inl rfl

end LocalSpanStack

end Fastrace
