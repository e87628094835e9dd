import Fastrace.Contexts
import Fastrace.TextFormats
import Fastrace.TraceTrees

/-!
# Traces across services

A service reads the context of a span or of the local parent, and sends it on in the header `traceparent`; the service
that gets the header begins a trace with what it decodes.  The services share nothing else.

The span that the context names descends from the root of its trace, at the time it is read and from then on
(`Passes.descends`), and the root of the next service has it as its parent.  So however the requests spread, all records
of all services are reached from the first root, and with distinct ids they are one tree (`distributed_trace`).
-/

namespace Fastrace

variable {T P : Type} [DecidableEq T]

/-- A program whose scopes are closed in order, that has dropped every span and every guard, and whose commands have
all been received. -/
structure Service (T : Type) [DecidableEq T] where
  calls : List (T × Op)
  world : World T
  rounds : List Round
  ran : Steps.run World.step World.init calls = some world
  lifo : Lifo (fun _ => []) calls
  spans : ∀ h, world.spans h = none
  guards : ∀ g, world.guards g = none
  complete : (received rounds).Perm world.commands

def Service.reported (service : Service T) (c : CollectId) : List SpanRecord :=
  (reportedFor false c service.rounds).flatten

/-- The collection of the item that `SpanContext::from_span` reads. -/
def Span.firstCollectId (span : Span) : Option CollectId :=
  (span.inner.bind fun inner => inner.issueCollectToken.head?).map CollectTokenItem.collectId

/-- The collection of the item that `SpanContext::current_local_parent` reads. -/
def LocalSpanStack.firstCollectId (stack : LocalSpanStack) : Option CollectId :=
  (stack.currentCollectToken.bind fun token => token[0]?).map CollectTokenItem.collectId

/-- At some time in the service one of the getters returns the context. -/
inductive Service.Passes (service : Service T) (c : CollectId) (context : SpanContext) : Prop
  | fromSpan {before after : List (T × Op)} {w : World T} {h : Var} {span : Span}
      (hcalls : service.calls = before ++ after) (hbefore : Steps.run World.step World.init before = some w)
      (hspan : w.spans h = some span) (hcontext : SpanContext.fromSpan span = some context)
      (hfirst : span.firstCollectId = some c) : Service.Passes service c context
  | currentLocalParent {before after : List (T × Op)} {w : World T} {t : T}
      (hcalls : service.calls = before ++ after) (hbefore : Steps.run World.step World.init before = some w)
      (hcontext : SpanContext.currentLocalParent (w.spanStack t) = some (some context))
      (hfirst : (w.spanStack t).firstCollectId = some c) : Service.Passes service c context

/-- The trace of a service goes on in the one of another service, which begins a root with what it decodes. -/
def Requests (services : P → Service T) (r r' : P × CollectId) : Prop :=
  ∃ context parent id, (services r.1).Passes r.2 context ∧ context.sampled = true ∧
    SpanContext.decodeW3cTraceparent context.encodeW3cTraceparent = some parent ∧
    RootCall (services r'.1).calls parent id r'.2

/-- The requests that have come from the first one. -/
inductive Distributed (services : P → Service T) (first : P × CollectId) : List (P × CollectId) → Prop
  | first : Distributed services first [first]
  | request {requests : List (P × CollectId)} {r r' : P × CollectId} (h : Distributed services first requests)
      (hr : r ∈ requests) (hrequest : Requests services r r') : Distributed services first (r' :: requests)

def reportedOf (services : P → Service T) (requests : List (P × CollectId)) : List SpanRecord :=
  requests.flatMap fun r => (services r.1).reported r.2

/-! ### What the getters return -/

section Contexts

variable {w w' : World T} {as bs : List (T × Op)} {item : CollectTokenItem} {h : Var} {s : SpanInner}

omit [DecidableEq T] in
private theorem ParentRecord.mono {records records' : List SpanRecord} (hsub : records ⊆ records') {p x : SpanId}
    (h : ParentRecord records p x) : ParentRecord records' p x := by
  obtain ⟨r, hr, h⟩ := h
  exact ⟨r, hsub hr, h⟩

/-- The context of a span is that of an item of its token, with the span as the parent. -/
private theorem fromSpan_eq_some {span : Span} {context : SpanContext} {c : CollectId}
    (hcontext : SpanContext.fromSpan span = some context) (hfirst : span.firstCollectId = some c) :
    ∃ s item, span.inner = some s ∧ item ∈ s.collectToken ∧ item.collectId = c ∧
      context = ⟨item.traceId, s.rawSpan.id, item.isSampled⟩ := by
  obtain ⟨s, hs, hcontext⟩ := Option.bind_eq_some_iff.1 hcontext
  obtain ⟨issued, hissued, rfl⟩ := Option.map_eq_some_iff.1 hcontext
  rw [Span.firstCollectId, hs, Option.bind_some, hissued] at hfirst
  cases hfirst
  obtain ⟨item, hitem, rfl⟩ := List.mem_map.1 (List.mem_of_head? hissued)
  exact ⟨s, item, hs, hitem, rfl, rfl⟩

private theorem currentLocalParent_eq_some {stack : LocalSpanStack} {context : SpanContext} {c : CollectId}
    (hcontext : SpanContext.currentLocalParent stack = some (some context)) (hfirst : stack.firstCollectId = some c) :
    ∃ line ∈ stack.spanLines, ∃ token item, line.collectToken = some token ∧ item ∈ token ∧ item.collectId = c ∧
      context = ⟨item.traceId, line.spanQueue.currentParentId.getD item.parentId, item.isSampled⟩ := by
  unfold SpanContext.currentLocalParent at hcontext
  unfold LocalSpanStack.firstCollectId at hfirst
  cases hcurrent : stack.currentCollectToken with
  | none => rw [hcurrent] at hfirst; cases hfirst
  | some current =>
    rw [hcurrent] at hcontext hfirst
    obtain ⟨issued, hissued, hcontext⟩ := Option.map_eq_some_iff.1 hcontext
    rw [Option.bind_some, hissued] at hfirst
    cases hfirst
    cases hcontext
    unfold LocalSpanStack.currentCollectToken at hcurrent
    cases hlines : stack.spanLines with
    | nil => rw [hlines] at hcurrent; cases hcurrent
    | cons line lines =>
      rw [hlines] at hcurrent
      obtain ⟨token, htoken, rfl⟩ := Option.map_eq_some_iff.1 hcurrent
      obtain ⟨item, hitem, rfl⟩ := List.mem_map.1 (List.mem_of_getElem? hissued)
      exact ⟨line, List.mem_cons_self .., token, item, htoken, hitem, rfl, rfl⟩

/-- What descends from a root does so for the rest of the run. -/
private theorem descends_later (hlifo : Lifo (fun _ => []) (as ++ bs))
    (hrun : Steps.run World.step World.init as = some w)
    (hrun' : Steps.run World.step w bs = some w') {c : CollectId} {x : SpanId} (h : Descends w.view c x) :
    Descends w'.view c x := by
  obtain ⟨hlifo, hlifo'⟩ := lifo_append.1 hlifo
  obtain ⟨-, -, hscoped⟩ := allDescend_of_run hlifo hrun
  have hstep : ∀ (w : World T) (a : T × Op) (w' : World T), Descends w.view c x → w.step a = some w' →
      Collects w.view a.1 w'.view → Descends w'.view c x := by
    intro w a w' h hw hcollects
    exact h.mono fun item k hk => hk.step (step_effect hw) hcollects
  exact (scoped_induction hstep hlifo' hscoped h hrun').1

/-- A later root does not get the collect id of a sampled one. -/
private theorem RootCall.ne_rootCollectId {parent parent' : SpanContext} {id : SpanId} {c : CollectId}
    (h : RootCall as parent id c) (hsampled : parent.sampled = true) (hsampled' : parent'.sampled = true)
    (hrun : Steps.run World.step World.init as = some w) : c ≠ w.rootCollectId parent' := by
  intro heq
  have hlt := h.lt hsampled hrun
  rw [heq, World.rootCollectId, if_pos hsampled'] at hlt
  exact Nat.lt_irrefl _ hlt

/-- Two sampled roots have the same collection only if they are the same. -/
private theorem RootCall.unique {parent parent' : SpanContext} {id id' : SpanId} {c : CollectId}
    (hroot : RootCall as parent id c) (hroot' : RootCall as parent' id' c) (hsampled : parent.sampled = true)
    (hsampled' : parent'.sampled = true) : parent = parent' ∧ id = id' := by
  obtain ⟨before, after, t, v, name, now, w, rfl, hw, hready, rfl⟩ := hroot
  obtain ⟨before', after', t', v', name', now', w', heq, hw', hready', hc⟩ := hroot'
  rcases List.append_eq_append_iff.1 heq with ⟨between, rfl, hbetween⟩ | ⟨between, rfl, hbetween⟩
  · cases between with
    | nil =>
      cases hbetween
      exact ⟨rfl, rfl⟩
    | cons a between =>
      cases hbetween
      have hcall : RootCall (before ++ (t, .root v name parent id now) :: between) parent id
          (w.rootCollectId parent) := ⟨before, between, t, v, name, now, w, rfl, hw, hready, rfl⟩
      exact absurd hc (hcall.ne_rootCollectId hsampled hsampled' hw')
  · cases between with
    | nil =>
      cases hbetween
      exact ⟨rfl, rfl⟩
    | cons a between =>
      cases hbetween
      have hcall : RootCall (before' ++ (t', .root v' name' parent' id' now') :: between) parent' id'
          (w'.rootCollectId parent') := ⟨before', between, t', v', name', now', w', rfl, hw', hready', rfl⟩
      exact absurd hc.symm (hcall.ne_rootCollectId hsampled' hsampled hw)

/-- The context that a service passes on names a span that descends from a root of its own, in the trace of the
root. -/
theorem Service.Passes.descends {service : Service T} {c : CollectId} {context : SpanContext}
    (h : service.Passes c context) (hsampled : context.sampled = true) :
    Descends service.world.view c context.spanId ∧
      ∃ parent id, RootCall service.calls parent id c ∧ parent.sampled = true ∧ context.traceId = parent.traceId := by
  cases h with
  | @fromSpan before after w h span hcalls hbefore hspan hcontext hfirst =>
    have hlifo := service.lifo
    have hran := service.ran
    rw [hcalls] at hlifo hran ⊢
    rw [Steps.run_append, hbefore, Option.bind_some] at hran
    obtain ⟨hall, hparented, -⟩ := allDescend_of_run (lifo_append.1 hlifo).1 hbefore
    obtain ⟨s, item, hs, hitem, rfl, rfl⟩ := fromSpan_eq_some hcontext hfirst
    have hinner : w.view.inner h = some s := by
      change (w.spans h).bind Span.inner = some s
      rw [hspan, Option.bind_some, hs]
    obtain ⟨parent, id, hroot, htrace, hitemSampled⟩ := (rooted_of_run hbefore).span h s hinner item hitem
    refine ⟨descends_later hlifo hbefore hran ?_, parent, id, hroot.append after, hitemSampled ▸ hsampled, htrace⟩
    exact descends_span hall hparented hinner (List.mem_filter.2 ⟨hitem, hsampled⟩)
  | @currentLocalParent before after w t hcalls hbefore hcontext hfirst =>
    have hlifo := service.lifo
    have hran := service.ran
    rw [hcalls] at hlifo hran ⊢
    rw [Steps.run_append, hbefore, Option.bind_some] at hran
    obtain ⟨hall, hparented, -⟩ := allDescend_of_run (lifo_append.1 hlifo).1 hbefore
    obtain ⟨line, hline, token, item, htoken, hitem, rfl, rfl⟩ := currentLocalParent_eq_some hcontext hfirst
    obtain ⟨parent, id, hroot, htrace, hitemSampled⟩ :=
      (rooted_of_run hbefore).line t line hline token htoken item hitem
    refine ⟨descends_later hlifo hbefore hran ?_, parent, id, hroot.append after, hitemSampled ▸ hsampled, htrace⟩
    exact descends_current hall hparented hline htoken (List.mem_filter.2 ⟨hitem, hsampled⟩)

end Contexts

/-! ### The records of all services -/

section Records

variable {services : P → Service T} {requests : List (P × CollectId)} {first r r' : P × CollectId}
  {parent : SpanContext} {id : SpanId}

private theorem Service.reached (service : Service T) {c : CollectId} (hroot : RootCall service.calls parent id c)
    (hsampled : parent.sampled = true) {x : SpanId} (h : Descends service.world.view c x) :
    Relation.ReflTransGen (ParentRecord (service.reported c)) id x :=
  reached_of_descends service.ran service.lifo service.spans service.guards service.complete hroot hsampled h

/-- The trace of a record is that of the root of its collection. -/
private theorem Service.traceId_of_reported (service : Service T) {c : CollectId}
    (hroot : RootCall service.calls parent id c)
    (hsampled : parent.sampled = true) {r : SpanRecord} (hr : r ∈ service.reported c) : r.traceId = parent.traceId := by
  obtain ⟨cmd, hcmd, item, hitem, rfl, hk⟩ := mem_keysFor.1
    ((mem_keysFor_iff_reported service.complete).2 ⟨r, hr, rfl⟩)
  obtain ⟨⟨parent', id', hroot', htrace, hitemSampled⟩, hitemIs⟩ :=
    (rooted_of_run service.ran).submitted cmd hcmd item hitem
  obtain ⟨rfl, rfl⟩ := hroot.unique hroot' hsampled (hitemSampled.symm.trans hitemIs)
  exact (mem_itemKeys hk).1.trans htrace

/-- The collection of the request begins with a root of the trace, which is reached from the first root. -/
def Joined (services : P → Service T) (records : List SpanRecord) (traceId : TraceId) (root : SpanId)
    (r : P × CollectId) : Prop :=
  ∃ parent id, RootCall (services r.1).calls parent id r.2 ∧ parent.sampled = true ∧ parent.traceId = traceId ∧
    Relation.ReflTransGen (ParentRecord records) root id

private theorem Joined.mono {records records' : List SpanRecord} (hsub : records ⊆ records') {traceId : TraceId}
    (h : Joined services records traceId id r) : Joined services records' traceId id r := by
  obtain ⟨parent', id', hroot, hsampled, htrace, hreached⟩ := h
  exact ⟨parent', id', hroot, hsampled, htrace, Relation.ReflTransGen.mono (fun _ _ h => h.mono hsub) _ _ hreached⟩

/-- The way goes on along the header to the root of the next service. -/
private theorem Joined.request {records : List SpanRecord} {traceId : TraceId}
    (h : Joined services records traceId id r)
    (hrequest : Requests services r r') (hr : (services r.1).reported r.2 ⊆ records)
    (hr' : (services r'.1).reported r'.2 ⊆ records) : Joined services records traceId id r' := by
  obtain ⟨parent₁, id₁, hroot₁, hsampled₁, rfl, hreached⟩ := h
  obtain ⟨context, parent₂, id₂, hpasses, hsampled, hdecode, hroot₂⟩ := hrequest
  rw [decode_encode] at hdecode
  cases hdecode
  obtain ⟨hdescends, parent', id', hroot', hsampled', htrace⟩ := hpasses.descends hsampled
  obtain ⟨rfl, rfl⟩ := hroot₁.unique hroot' hsampled₁ hsampled'
  have hto := (services r.1).reached hroot₁ hsampled₁ hdescends
  obtain ⟨own, hown, hkey⟩ := own_reported (services r'.1).ran (services r'.1).lifo (services r'.1).spans
    (services r'.1).complete hroot₂ hsampled
  have hlink : ParentRecord records context.spanId id₂ :=
    ⟨own, hr' hown, congrArg RecordKey.parentId hkey, congrArg RecordKey.spanId hkey⟩
  refine ⟨context, id₂, hroot₂, hsampled, htrace, Relation.ReflTransGen.tail ?_ hlink⟩
  exact hreached.trans (Relation.ReflTransGen.mono (fun _ _ h => h.mono hr) _ _ hto)

private theorem reported_subset_reportedOf (hr : r ∈ requests) :
    (services r.1).reported r.2 ⊆ reportedOf services requests :=
  fun _ hrecord => List.mem_flatMap.2 ⟨r, hr, hrecord⟩

private theorem Distributed.joined (h : Distributed services first requests)
    (hroot : RootCall (services first.1).calls parent id first.2) (hsampled : parent.sampled = true) :
    ∀ r ∈ requests, Joined services (reportedOf services requests) parent.traceId id r := by
  induction h with
  | first =>
    intro r hr
    rw [List.mem_singleton.1 hr]
    exact ⟨parent, id, hroot, hsampled, rfl, .refl⟩
  | @request requests r r' h hr hrequest ih =>
    have hsub : reportedOf services requests ⊆ reportedOf services (r' :: requests) := List.subset_append_right ..
    intro r₁ hr₁
    rcases List.mem_cons.1 hr₁ with rfl | hr₁
    · exact ((ih r hr).mono hsub).request hrequest (reported_subset_reportedOf (List.mem_cons_of_mem _ hr))
        (reported_subset_reportedOf (List.mem_cons_self ..))
    · exact (ih r₁ hr₁).mono hsub

/-- However requests spread from a sampled root over services, each of which drops and sends in the end all it has made:
every record of the services is of the trace of the root, and is reached from the root along parent links.  If the root
has no parent and no span is reported twice, `from_span_records` returns a tree on all the records, in any order, that
holds every record once, under its parent. -/
theorem distributed_trace (h : Distributed services first requests)
    (hroot : RootCall (services first.1).calls parent id first.2) (hsampled : parent.sampled = true) :
    (∀ r ∈ reportedOf services requests, r.traceId = parent.traceId ∧
      Relation.ReflTransGen (ParentRecord (reportedOf services requests)) id r.spanId) ∧
    (parent.spanId = default → (∀ r ∈ requests, FreshIds (services r.1).calls) →
      ((reportedOf services requests).map SpanRecord.spanId).Nodup →
        ∀ depth, (reportedOf services requests).length < depth →
          ∃ t, Tree.Shows ((reportedOf services requests).map Tree.recordRow) [t] ∧
            ∀ records, records.Perm (reportedOf services requests) →
              Tree.fromSpanRecords depth records = some t) := by
  have hrecords : ∀ r ∈ reportedOf services requests, r.traceId = parent.traceId ∧
      Relation.ReflTransGen (ParentRecord (reportedOf services requests)) id r.spanId := by
    intro record hrecord
    obtain ⟨r, hr, hrecord⟩ := List.mem_flatMap.1 hrecord
    obtain ⟨parent', id', hroot', hsampled', htrace, hreached⟩ := h.joined hroot hsampled r hr
    refine ⟨((services r.1).traceId_of_reported hroot' hsampled' hrecord).trans htrace, hreached.trans ?_⟩
    have hto := records_reached_from (services r.1).ran (services r.1).lifo (services r.1).spans (services r.1).guards
      (services r.1).complete hroot' hsampled' record hrecord
    exact Relation.ReflTransGen.mono (fun _ _ h => h.mono (reported_subset_reportedOf hr)) _ _ hto
  refine ⟨hrecords, fun hparent hfresh hnodup depth hdepth => ?_⟩
  have hfirst : first ∈ requests := by
    clear hrecords hfresh hnodup hdepth
    induction h with
    | first => exact List.mem_singleton.2 rfl
    | request h hr hrequest ih => exact List.mem_cons_of_mem _ ih
  obtain ⟨own, hown, hkey⟩ := own_reported (services first.1).ran (services first.1).lifo (services first.1).spans
    (services first.1).complete hroot hsampled
  have hid : own.spanId = id := congrArg RecordKey.spanId hkey
  refine tree_of_records (reported_subset_reportedOf hfirst hown) ((congrArg RecordKey.parentId hkey).trans hparent)
    (fun record hrecord => hid ▸ (hrecords record hrecord).2) (fun hzero => ?_) hnodup hdepth
  obtain ⟨record, hrecord, hzero⟩ := List.mem_map.1 hzero
  obtain ⟨r, hr, hrecord⟩ := List.mem_flatMap.1 hrecord
  exact reported_nonzero (services r.1).ran (hfresh r hr) (services r.1).complete
    (List.mem_map.2 ⟨record, hrecord, hzero⟩)

end Records

/-! ### A request from a local span -/

/-- The service is called from the local span `4` of the thread `1`. -/
def calledProgram : List (Nat × Op) := [
  (0, .setReporter),
  (0, .root 0 "handle" ⟨⟨1⟩, ⟨4⟩, true⟩ ⟨5⟩ ⟨14⟩),
  (0, .enterWithParents 1 "work" [0] ⟨6⟩ ⟨15⟩),
  (0, .dropSpan 0 ⟨16⟩),
  (0, .dropSpan 1 ⟨17⟩)]

def calledWorld : World Nat := (Steps.run World.step World.init calledProgram).getD World.init

def calledRounds : List Round := [⟨calledWorld.commands, fun i => i.ticks, .stored⟩]

def callingService : Service Nat where
  calls := plantedProgram
  world := plantedWorld
  rounds := plantedRounds
  ran := rfl
  lifo := by decide
  spans := emptied _ _ 0 3
  guards := emptied _ _ 1 4
  complete := List.Perm.of_eq (by simp [received, plantedRounds])

def calledService : Service Nat where
  calls := calledProgram
  world := calledWorld
  rounds := calledRounds
  ran := rfl
  lifo := by decide
  spans := emptied _ _ 0 1
  guards := fun _ => rfl
  complete := List.Perm.of_eq (by simp [received, calledRounds])

def twoServices (called : Bool) : Service Nat := if called then calledService else callingService

private theorem twoServices_distributed : Distributed twoServices (false, 0) [(true, 0), (false, 0)] := by
  refine .request .first (List.mem_singleton.2 rfl) ⟨⟨⟨1⟩, ⟨4⟩, true⟩, ⟨⟨1⟩, ⟨4⟩, true⟩, ⟨5⟩, ?_, rfl,
    decode_encode _, ?_⟩
  · exact @Service.Passes.currentLocalParent _ _ _ _ _ (plantedProgram.take 7) (plantedProgram.drop 7) _ 1
      rfl rfl rfl rfl
  · exact ⟨[(0, .setReporter)], _, 0, 0, "handle", ⟨14⟩, _, rfl, rfl, rfl, rfl⟩

theorem distributed_trace_called :
    (∀ r ∈ reportedOf twoServices [(true, 0), (false, 0)], r.traceId = ⟨1⟩ ∧
      Relation.ReflTransGen (ParentRecord (reportedOf twoServices [(true, 0), (false, 0)])) ⟨1⟩ r.spanId) ∧
    ∃ t, Tree.Shows ((reportedOf twoServices [(true, 0), (false, 0)]).map Tree.recordRow) [t] ∧
      ∀ records : List SpanRecord, records.Perm (reportedOf twoServices [(true, 0), (false, 0)]) →
        Tree.fromSpanRecords 7 records = some t := by
  have hroot : RootCall (twoServices (false, 0).1).calls ⟨⟨1⟩, default, true⟩ ⟨1⟩ (false, 0).2 :=
    ⟨[(0, .setReporter)], _, 0, 0, "root", ⟨10⟩, _, rfl, rfl, rfl, rfl⟩
  obtain ⟨hreached, htree⟩ := distributed_trace twoServices_distributed hroot rfl
  have hcalling : FreshIds (twoServices false).calls := ⟨by decide, by decide⟩
  have hcalled : FreshIds (twoServices true).calls := ⟨by decide, by decide⟩
  have hfresh : ∀ called, FreshIds (twoServices called).calls := Bool.forall_bool.2 ⟨hcalling, hcalled⟩
  exact ⟨hreached, htree rfl (fun r _ => hfresh r.1) (by decide) 7 (by decide)⟩

end Fastrace
