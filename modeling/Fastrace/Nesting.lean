import Fastrace.Replicas

/-!
# Programs of nested blocks

A single-threaded program whose local parents and local spans are set in blocks, one inside the other.
`Block.calls` are the calls it makes.  `Block.meaning` says what it asks to be reported, by the text of the program
alone: the place of a call is the innermost local span open in the innermost block of a local parent, or else the span
of that block, and the call is recorded there once in each trace of that span (`Place.child`, `Place.attach`).
Neither the stack nor the queues, the tokens or the register of `next_parent_id` occur in it.
-/

namespace Fastrace

/-! ### Syntax -/

/-- A call that opens no block. -/
inductive PlainCall where
  | root (h : Var) (name : String) (parent : SpanContext) (id : SpanId) (now : Instant)
  | enterWithParents (h : Var) (name : String) (parents : List Var) (id : SpanId) (now : Instant)
  | enterWithLocalParent (h : Var) (name : String) (id : SpanId) (now : Instant)
  | dropSpan (h : Var) (now : Instant)
  | addEvent (event : Event) (id : SpanId) (now : Instant)
  | addProperties (properties : Properties) (id : SpanId)

def PlainCall.op : PlainCall → Op
  | .root h name parent id now => .root h name parent id now
  | .enterWithParents h name parents id now => .enterWithParents h name parents id now
  | .enterWithLocalParent h name id now => .enterWithLocalParent h name id now
  | .dropSpan h now => .dropSpan h now
  | .addEvent event id now => .localAddEvent event id now
  | .addProperties properties id => .localAddProperties properties id

def PlainCall.entries : PlainCall → Nat
  | .addEvent .. => 1
  | .addProperties .. => 1
  | _ => 0

/-- The variables whose spans are dropped. -/
def PlainCall.drops : PlainCall → List Var
  | .dropSpan h _ => [h]
  | _ => []

/-- A sequence of calls and of blocks, each ending with the drop of its guard or local span. -/
inductive Block where
  | done
  | call (c : PlainCall) (rest : Block)
  | setLocalParent (g h : Var) (body : Block) (now : Instant) (rest : Block)
  | localSpan (v : Var) (name : String) (id : SpanId) (now : Instant) (body : Block) (later : Instant) (rest : Block)

namespace Block

def calls {T : Type} (t : T) : Block → List (T × Op)
  | .done => []
  | .call c rest => (t, c.op) :: calls t rest
  | .setLocalParent g h body now rest =>
    (t, .setLocalParent g h) :: (calls t body ++ (t, .dropGuard g now) :: calls t rest)
  | .localSpan v name id now body later rest =>
    (t, .enterLocal v name id now) :: (calls t body ++ (t, .dropLocal v later) :: calls t rest)

def drops : Block → List Var
  | .done => []
  | .call c rest => c.drops ++ drops rest
  | .setLocalParent _ _ body _ rest => drops body ++ drops rest
  | .localSpan _ _ _ _ body _ rest => drops body ++ drops rest

/-- How many entries the block adds to the line of the local parent around it. -/
def entries : Block → Nat
  | .done => 0
  | .call c rest => c.entries + entries rest
  | .setLocalParent _ _ _ _ rest => entries rest
  | .localSpan _ _ _ _ body _ rest => 1 + entries body + entries rest

end Block

/-! ### Meaning -/

/-- What is reported: a record with the properties its span has of its own, or an event or properties attached to the
record of a span in a trace. -/
inductive Fact where
  | record (key : RecordKey) (properties : Properties)
  | attached (traceId : TraceId) (spanId : SpanId) (item : DanglingItem)
deriving DecidableEq, Repr

def Fact.key? : Fact → Option RecordKey
  | .record key _ => some key
  | .attached .. => none

/-- The item, if it is attached to the span `x` in the trace `traceId`. -/
def Fact.attachedTo? (traceId : TraceId) (x : SpanId) : Fact → Option DanglingItem
  | .record .. => none
  | .attached traceId' x' item => if traceId' = traceId ∧ x' = x then some item else none

/-- A span or local span, and the traces of the items of the token that it is under. -/
structure Place where
  id : SpanId
  traces : List TraceId
deriving DecidableEq, Repr

/-- A span made at the place: one record in each trace, with the place as the parent. -/
def Place.child (place : Place) (id : SpanId) : List Fact :=
  place.traces.map fun traceId => .record ⟨traceId, id, place.id⟩ []

def Place.attach (place : Place) (item : DanglingItem) : List Fact :=
  place.traces.map fun traceId => .attached traceId place.id item

structure Meaning where
  /-- The spans made, by their variables. -/
  spans : Var → Option Place
  /-- All spans made. -/
  made : List Place
  facts : List Fact

def Meaning.empty : Meaning where
  spans _ := none
  made := []
  facts := []

namespace Meaning

def newSpan (m : Meaning) (h : Var) (place : Place) (facts : List Fact) : Meaning where
  spans := Function.update m.spans h (some place)
  made := m.made ++ [place]
  facts := m.facts ++ facts

def add (m : Meaning) (facts : List Fact) : Meaning := { m with facts := m.facts ++ facts }

/-- The records of the spans. -/
def keys (m : Meaning) : List RecordKey := m.facts.filterMap Fact.key?

/-- What is attached to the span `x` in the trace. -/
def attachedTo (m : Meaning) (traceId : TraceId) (x : SpanId) : List DanglingItem :=
  m.facts.filterMap (Fact.attachedTo? traceId x)

end Meaning

/-- An event as it is reported, but for the time. -/
def Event.item (event : Event) : DanglingItem := .event ⟨event.name, 0, event.properties.getD []⟩

/-- The call at the place `scope`, or outside of all local parents. -/
def PlainCall.meaning (scope : Option Place) (m : Meaning) : PlainCall → Meaning
  | .root h _ parent id _ =>
    m.newSpan h ⟨id, [parent.traceId]⟩ [.record ⟨parent.traceId, id, parent.spanId⟩ []]
  | .enterWithParents h _ parents id _ =>
    let places := parents.filterMap m.spans
    m.newSpan h ⟨id, places.flatMap Place.traces⟩ (places.flatMap fun place => place.child id)
  | .enterWithLocalParent h _ id _ =>
    match scope with
    | some place => m.newSpan h ⟨id, place.traces⟩ (place.child id)
    | none => m
  | .dropSpan .. => m
  | .addEvent event _ _ => m.add (scope.toList.flatMap fun place => place.attach event.item)
  | .addProperties properties _ => m.add (scope.toList.flatMap fun place => place.attach (.properties properties))

def Block.meaning : Block → Option Place → Meaning → Meaning
  | .done, _, m => m
  | .call c rest, scope, m => rest.meaning scope (c.meaning scope m)
  | .setLocalParent _ h body _ rest, scope, m => rest.meaning scope (body.meaning (m.spans h) m)
  | .localSpan _ _ id _ body _ rest, scope, m =>
    rest.meaning scope (body.meaning (scope.map fun place => ⟨id, place.traces⟩)
      (m.add (scope.toList.flatMap fun place => place.child id)))

/-! ### Proper programs -/

/-- Roots are sampled, and only they are kept in the variables `roots` and not dropped; a span has a parent. -/
def PlainCall.Fits (roots : List Var) (depth : Nat) : PlainCall → Prop
  | .root h _ parent _ _ => h ∈ roots ∧ parent.sampled = true
  | .enterWithParents h _ parents _ _ => h ∉ roots ∧ parents ≠ []
  | .enterWithLocalParent h _ _ _ => h ∉ roots ∧ 0 < depth
  | .dropSpan h _ => h ∉ roots
  | _ => True

/-- Inside of `depth` local parents the block keeps within the capacities of the stack and of the queues, and no
span is dropped in a block of its own. -/
def Block.Fits (roots : List Var) : Block → Nat → Prop
  | .done, _ => True
  | .call c rest, depth => c.Fits roots depth ∧ rest.Fits roots depth
  | .setLocalParent _ h body _ rest, depth =>
    (depth < defaultSpanStackSize ∧ body.entries ≤ defaultSpanQueueSize ∧ h ∉ body.drops) ∧
      body.Fits roots (depth + 1) ∧ rest.Fits roots depth
  | .localSpan _ _ _ _ body _ rest, depth => body.Fits roots depth ∧ rest.Fits roots depth

instance PlainCall.decidableFits (roots : List Var) (depth : Nat) : (c : PlainCall) → Decidable (c.Fits roots depth)
  | .root h _ parent _ _ => inferInstanceAs (Decidable (h ∈ roots ∧ parent.sampled = true))
  | .enterWithParents h _ parents _ _ => inferInstanceAs (Decidable (h ∉ roots ∧ parents ≠ []))
  | .enterWithLocalParent h _ _ _ => inferInstanceAs (Decidable (h ∉ roots ∧ 0 < depth))
  | .dropSpan h _ => inferInstanceAs (Decidable (h ∉ roots))
  | .addEvent .. => inferInstanceAs (Decidable True)
  | .addProperties .. => inferInstanceAs (Decidable True)

instance Block.decidableFits (roots : List Var) : (p : Block) → (depth : Nat) → Decidable (p.Fits roots depth)
  | .done, _ => inferInstanceAs (Decidable True)
  | .call c rest, depth =>
    have := Block.decidableFits roots rest depth
    inferInstanceAs (Decidable (c.Fits roots depth ∧ rest.Fits roots depth))
  | .setLocalParent _ h body _ rest, depth =>
    have := Block.decidableFits roots body (depth + 1)
    have := Block.decidableFits roots rest depth
    inferInstanceAs (Decidable ((depth < defaultSpanStackSize ∧ body.entries ≤ defaultSpanQueueSize ∧
      h ∉ body.drops) ∧ body.Fits roots (depth + 1) ∧ rest.Fits roots depth))
  | .localSpan _ _ _ _ body _ rest, depth =>
    have := Block.decidableFits roots body depth
    have := Block.decidableFits roots rest depth
    inferInstanceAs (Decidable (body.Fits roots depth ∧ rest.Fits roots depth))

/-- The trace of a new root. -/
def Op.rootTrace? : Op → Option TraceId
  | .root _ _ parent _ _ => some parent.traceId
  | _ => none

def rootTraces {T : Type} (as : List (T × Op)) : List TraceId := as.filterMap fun a => a.2.rootTrace?

/-- A block, and the variables of its roots in the order in which these are dropped at the end. -/
structure BlockProgram where
  body : Block
  roots : List (Var × Instant)

namespace BlockProgram

def calls {T : Type} (t : T) (p : BlockProgram) : List (T × Op) :=
  (t, .setReporter) :: (p.body.calls t ++ p.roots.map fun root => (t, .dropSpan root.1 root.2))

def meaning (p : BlockProgram) : Meaning := p.body.meaning none .empty

/-- Every root has a trace of its own, and every span at most one token item for each trace. -/
structure Proper (p : BlockProgram) : Prop where
  fits : p.body.Fits (p.roots.map Prod.fst) 0
  ownTraces : (rootTraces (p.body.calls ())).Nodup
  oneItem : ∀ place ∈ p.meaning.made, place.traces.Nodup

end BlockProgram

/-! ### What the meaning reports -/

/-- The trace and the id of a record. -/
def Fact.recordId? : Fact → Option (TraceId × SpanId)
  | .record key _ => some (key.traceId, key.spanId)
  | .attached .. => none

/-- Every span made so far is reported once in a trace, without properties of its own. -/
structure Meaning.Sound (drawn : List SpanId) (m : Meaning) : Prop where
  places : ∀ h place, m.spans h = some place → place ∈ m.made
  once : (m.facts.filterMap Fact.recordId?).Nodup
  known : ∀ p ∈ m.facts.filterMap Fact.recordId?, p.2 ∈ drawn
  bare : ∀ key properties, .record key properties ∈ m.facts → properties = []

/-- The facts are records of the new span `id`, one in each of the traces. -/
structure Child (id : SpanId) (traces : List TraceId) (facts : List Fact) : Prop where
  ids : facts.filterMap Fact.recordId? = traces.map fun traceId => (traceId, id)
  bare : ∀ key properties, .record key properties ∈ facts → properties = []

private theorem Place.child_child (place : Place) (id : SpanId) : Child id place.traces (place.child id) where
  ids := by
    unfold Place.child
    rw [List.filterMap_map, ← List.filterMap_eq_map]
    rfl
  bare key properties hmem := by
    obtain ⟨traceId, -, heq⟩ := List.mem_map.1 hmem
    cases heq
    rfl

private theorem child_places (id : SpanId) (places : List Place) :
    Child id (places.flatMap Place.traces) (places.flatMap fun place => place.child id) where
  ids := by
    rw [List.filterMap_flatMap, List.map_flatMap]
    exact List.flatMap_congr fun place _ => (place.child_child id).ids
  bare key properties hmem := by
    obtain ⟨place, -, hmem⟩ := List.mem_flatMap.1 hmem
    exact (place.child_child id).bare key properties hmem

namespace Meaning.Sound

variable {drawn : List SpanId} {m : Meaning}

private theorem later (h : m.Sound drawn) (ids : List SpanId) : m.Sound (drawn ++ ids) where
  places := h.places
  once := h.once
  known p hp := List.mem_append_left _ (h.known p hp)
  bare := h.bare

private theorem attach (h : m.Sound drawn) {facts : List Fact} (hfacts : facts.filterMap Fact.recordId? = [])
    (hbare : ∀ key properties, .record key properties ∉ facts) : (m.add facts).Sound drawn where
  places := h.places
  once := by
    rw [Meaning.add, List.filterMap_append, hfacts, List.append_nil]
    exact h.once
  known p hp := by
    rw [Meaning.add, List.filterMap_append, hfacts, List.append_nil] at hp
    exact h.known p hp
  bare key properties hmem := by
    rcases List.mem_append.1 hmem with hmem | hmem
    · exact h.bare key properties hmem
    · exact absurd hmem (hbare key properties)

private theorem child (h : m.Sound drawn) {id : SpanId} {traces : List TraceId} {facts : List Fact}
    (hfacts : Child id traces facts) (htraces : traces.Nodup) (hid : id ∉ drawn) :
    (m.add facts).Sound (drawn ++ [id]) where
  places := h.places
  once := by
    rw [Meaning.add, List.filterMap_append, hfacts.ids, List.nodup_append]
    refine ⟨h.once, htraces.map fun a b hab => congrArg Prod.fst hab, fun p hp q hq heq => ?_⟩
    obtain ⟨traceId, -, rfl⟩ := List.mem_map.1 hq
    have hdrawn := h.known p hp
    rw [heq] at hdrawn
    exact hid hdrawn
  known p hp := by
    rw [Meaning.add, List.filterMap_append, hfacts.ids] at hp
    rcases List.mem_append.1 hp with hp | hp
    · exact List.mem_append_left _ (h.known p hp)
    · obtain ⟨traceId, -, rfl⟩ := List.mem_map.1 hp
      exact List.mem_append_right _ (List.mem_singleton.2 rfl)
  bare key properties hmem := by
    rcases List.mem_append.1 hmem with hmem | hmem
    · exact h.bare key properties hmem
    · exact hfacts.bare key properties hmem

private theorem newSpan (h : m.Sound drawn) (v : Var) (place : Place) {id : SpanId} {facts : List Fact}
    (hfacts : Child id place.traces facts) (htraces : place.traces.Nodup) (hid : id ∉ drawn) :
    (m.newSpan v place facts).Sound (drawn ++ [id]) where
  places v' place' hplace := by
    change Function.update m.spans v (some place) v' = some place' at hplace
    by_cases hv : v' = v
    · subst hv
      rw [Function.update_self] at hplace
      cases hplace
      exact List.mem_append_right _ (List.mem_singleton.2 rfl)
    · rw [Function.update_of_ne hv] at hplace
      exact List.mem_append_left _ (h.places v' place' hplace)
  once := (h.child hfacts htraces hid).once
  known := (h.child hfacts htraces hid).known
  bare := (h.child hfacts htraces hid).bare

end Meaning.Sound

private theorem attach_recordIds (scope : Option Place) (item : DanglingItem) :
    (scope.toList.flatMap fun place => place.attach item).filterMap Fact.recordId? = [] := by
  cases scope with
  | none => rfl
  | some place => simp [Place.attach, Fact.recordId?]

private theorem not_mem_attach (scope : Option Place) (item : DanglingItem) (key : RecordKey)
    (properties : Properties) :
    .record key properties ∉ scope.toList.flatMap fun place => place.attach item := by
  cases scope with
  | none => exact List.not_mem_nil
  | some place => simp [Place.attach]

private theorem PlainCall.made_prefix (c : PlainCall) (scope : Option Place) (m : Meaning) :
    m.made <+: (c.meaning scope m).made := by
  cases c with
  | enterWithLocalParent h name id now =>
    cases scope with
    | none => exact List.prefix_rfl
    | some place => exact List.prefix_append ..
  | root => exact List.prefix_append ..
  | enterWithParents => exact List.prefix_append ..
  | _ => exact List.prefix_rfl

private theorem Block.made_prefix (p : Block) (scope : Option Place) (m : Meaning) :
    m.made <+: (p.meaning scope m).made := by
  induction p generalizing scope m with
  | done => exact List.prefix_rfl
  | call c rest ih => exact (c.made_prefix scope m).trans (ih ..)
  | setLocalParent g h body now rest ihbody ihrest => exact (ihbody (m.spans h) m).trans (ihrest ..)
  | localSpan v name id now body later rest ihbody ihrest =>
    exact (ihbody _ (m.add (scope.toList.flatMap fun place => place.child id))).trans (ihrest ..)

section Sound

variable {T : Type} {t : T} {drawn : List SpanId} {m : Meaning} {scope : Option Place}

private theorem not_mem_of_nodup {x : SpanId} {ids : List SpanId} (h : (drawn ++ x :: ids).Nodup) : x ∉ drawn := by
  intro hx
  exact (List.nodup_append.1 h).2.2 x hx x (List.mem_cons_self ..) rfl

private theorem PlainCall.sound (c : PlainCall) (h : m.Sound drawn) (hid : ∀ x, c.op.id? = some x → x ∉ drawn)
    (hscope : ∀ place, scope = some place → place.traces.Nodup)
    (hmade : ∀ place ∈ (c.meaning scope m).made, place.traces.Nodup) :
    (c.meaning scope m).Sound (drawn ++ c.op.id?.toList) := by
  cases c with
  | root v name parent id now =>
    have hchild : Child id [parent.traceId] [.record ⟨parent.traceId, id, parent.spanId⟩ []] := by
      refine ⟨rfl, fun key properties hmem => ?_⟩
      cases List.mem_singleton.1 hmem
      rfl
    exact h.newSpan v ⟨id, [parent.traceId]⟩ hchild (List.nodup_singleton _) (hid id rfl)
  | enterWithParents v name parents id now =>
    refine h.newSpan v ⟨id, _⟩ (child_places id _) (hmade ⟨id, _⟩ ?_) (hid id rfl)
    exact List.mem_append_right _ (List.mem_singleton.2 rfl)
  | enterWithLocalParent v name id now =>
    cases scope with
    | none => exact h.later _
    | some place =>
      exact h.newSpan v ⟨id, place.traces⟩ (place.child_child id) (hscope place rfl) (hid id rfl)
  | dropSpan v now => exact h.later _
  | addEvent event id now =>
    exact (h.attach (attach_recordIds ..) fun key properties => not_mem_attach scope _ key properties).later _
  | addProperties properties id =>
    exact (h.attach (attach_recordIds ..) fun key properties => not_mem_attach scope _ key properties).later _

/-- The meaning of a program with fresh ids is sound. -/
theorem Block.sound (p : Block) (h : m.Sound drawn) (hids : (drawn ++ drawnIds (p.calls t)).Nodup)
    (hscope : ∀ place, scope = some place → place.traces.Nodup)
    (hmade : ∀ place ∈ (p.meaning scope m).made, place.traces.Nodup) :
    (p.meaning scope m).Sound (drawn ++ drawnIds (p.calls t)) := by
  induction p generalizing drawn m scope with
  | done => exact h.later _
  | call c rest ih =>
    have hfirst := hids
    rw [calls, drawnIds_cons] at hfirst ⊢
    rw [← List.append_assoc] at hfirst ⊢
    refine ih (c.sound h (fun x hx => ?_) hscope fun place hplace => ?_) hfirst hscope hmade
    · rw [calls, drawnIds_cons, hx] at hids
      exact not_mem_of_nodup hids
    · exact hmade place ((rest.made_prefix _ _).subset hplace)
  | setLocalParent g v body now rest ihbody ihrest =>
    have hsplit : drawnIds ((Block.setLocalParent g v body now rest).calls t) =
        drawnIds (body.calls t) ++ drawnIds (rest.calls t) := by
      rw [calls, drawnIds_cons, drawnIds_append, drawnIds_cons]
      rfl
    rw [hsplit, ← List.append_assoc] at hids ⊢
    have hplaces : ∀ place ∈ (body.meaning (m.spans v) m).made, place.traces.Nodup := fun place hplace =>
      hmade place ((rest.made_prefix _ _).subset hplace)
    refine ihrest (ihbody h (List.Nodup.of_append_left hids) (fun place hplace => ?_) hplaces) hids hscope hmade
    exact hplaces place ((body.made_prefix _ _).subset (h.places v place hplace))
  | localSpan v name id now body later rest ihbody ihrest =>
    have hsplit : drawnIds ((Block.localSpan v name id now body later rest).calls t) =
        id :: (drawnIds (body.calls t) ++ drawnIds (rest.calls t)) := by
      rw [calls, drawnIds_cons, drawnIds_append, drawnIds_cons]
      rfl
    rw [hsplit] at hids ⊢
    have hid := not_mem_of_nodup hids
    have hregroup : drawn ++ id :: (drawnIds (body.calls t) ++ drawnIds (rest.calls t)) =
        drawn ++ [id] ++ drawnIds (body.calls t) ++ drawnIds (rest.calls t) := by
      simp
    rw [hregroup] at hids ⊢
    have hopen : (m.add (scope.toList.flatMap fun place => place.child id)).Sound (drawn ++ [id]) := by
      cases scope with
      | none => exact (h.attach rfl fun _ _ => List.not_mem_nil).later _
      | some place =>
        rw [Option.toList_some, List.flatMap_singleton]
        exact h.child (place.child_child id) (hscope place rfl) hid
    refine ihrest (ihbody hopen (List.Nodup.of_append_left hids) (fun place hplace => ?_) fun place hplace => ?_) hids
      hscope hmade
    · obtain ⟨outer, houter, rfl⟩ := Option.map_eq_some_iff.1 hplace
      exact hscope outer houter
    · exact hmade place ((rest.made_prefix _ _).subset hplace)

end Sound

end Fastrace
