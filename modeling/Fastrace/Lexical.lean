import Fastrace.Orphans
import Fastrace.Interleavings

/-!
# What threads ask to be reported

The meaning of the calls of several threads, in any order, by what is open where: a layer is a local parent or a local
collector that a thread has set and not closed, with the local spans that are open in it.  A span made by a thread
hangs under its innermost open local span, or else under the span of its innermost local parent; it is recorded once in
every sampled trace of that span, and reported when it is dropped, and so are the local spans of a layer when the
layer is closed.  Neither stacks and queues, nor tokens, epochs, handles or the register of `next_parent_id` occur in
it.

`Lexical.InOrder` says when the calls of a thread are closed in order.
-/

namespace Fastrace

/-- A record that is asked for: the collection and the key. -/
abbrev Asked := CollectId × RecordKey

/-- A span, the traces in which what is made under it is recorded, and its own records. -/
structure Site where
  id : SpanId
  traces : List (CollectId × TraceId)
  records : List Asked
deriving DecidableEq, Repr

namespace Site

/-- One record for each trace of the site, with the site as the parent. -/
def child (site : Site) (x : SpanId) : List Asked := site.traces.map fun p => (p.1, ⟨p.2, x, site.id⟩)

/-- A span with several parents. -/
def join (sites : List Site) (x : SpanId) : Site where
  id := x
  traces := sites.flatMap Site.traces
  records := sites.flatMap fun site => site.child x

/-- A root; only that of a sampled trace is recorded. -/
def root (parent : SpanContext) (c : CollectId) (x : SpanId) : Site where
  id := x
  traces := if parent.sampled then [(c, parent.traceId)] else []
  records := if parent.sampled then [(c, ⟨parent.traceId, x, parent.spanId⟩)] else []

end Site

/-- A local span, and the local span it is in if there is one. -/
structure LocalEntry where
  parent : Option SpanId
  id : SpanId
deriving DecidableEq, Repr

/-- The local spans as they are recorded under a span. -/
def Site.under (site : Site) (entries : List LocalEntry) : List Asked :=
  site.traces.flatMap fun p => entries.map fun e => (p.1, ⟨p.2, e.id, e.parent.getD site.id⟩)

structure Layer where
  scope : Scope
  /-- The span of a local parent; a local collector has none. -/
  site : Option Site
  /-- The open local spans, the innermost first. -/
  locals : List (Var × SpanId)
  /-- All local spans so far. -/
  entries : List LocalEntry
deriving DecidableEq, Repr

namespace Layer

/-- The innermost open local span. -/
def current (layer : Layer) : Option SpanId := layer.locals.head?.map Prod.snd

/-- Where a span is that is made in the layer. -/
def here (layer : Layer) : Option Site :=
  layer.site.map fun site => { site with id := layer.current.getD site.id }

def enter (layer : Layer) (v : Var) (x : SpanId) : Layer :=
  { layer with locals := (v, x) :: layer.locals, entries := layer.entries ++ [⟨layer.current, x⟩] }

/-- The innermost local span is left. -/
def leave (layer : Layer) : Layer := { layer with locals := layer.locals.tail }

end Layer

structure Lexical (T : Type) where
  ready : Bool
  nextCollectId : CollectId
  /-- The spans in the variables, but for no-op spans. -/
  spans : Var → Option Site
  layers : T → List Layer
  /-- The local spans that have been collected. -/
  collected : Var → Option (List LocalEntry)
  /-- What has been submitted. -/
  submitted : List Asked

namespace Lexical

variable {T : Type}

def init : Lexical T where
  ready := false
  nextCollectId := 0
  spans _ := none
  layers _ := []
  collected _ := none
  submitted := []

variable [DecidableEq T]

def setSpan (l : Lexical T) (h : Var) (site : Option Site) : Lexical T :=
  { l with spans := Function.update l.spans h site }

def setLayers (l : Lexical T) (t : T) (layers : List Layer) : Lexical T :=
  { l with layers := Function.update l.layers t layers }

def submit (l : Lexical T) (asked : List Asked) : Lexical T := { l with submitted := l.submitted ++ asked }

/-- Another layer, unless there are too many. -/
def opened (l : Lexical T) (t : T) (layer : Layer) : Lexical T :=
  if (l.layers t).length < defaultSpanStackSize then l.setLayers t (layer :: l.layers t) else l

/-- The innermost layer of the thread, if the scope is that of it, and the layers around. -/
def closing (l : Lexical T) (t : T) (scope : Scope) : Option (Layer × List Layer) :=
  match l.layers t with
  | layer :: layers => if layer.scope = scope then some (layer, layers) else none
  | [] => none

def step (l : Lexical T) : T × Op → Lexical T
  | (_, .setReporter) => { l with ready := true }
  | (_, .root h _ parent id _) =>
    if l.ready then
      { l with nextCollectId := if parent.sampled then l.nextCollectId + 1 else l.nextCollectId }.setSpan h
        (some (.root parent l.nextCollectId id))
    else l
  | (_, .enterWithParent h _ parent id _) => l.setSpan h ((l.spans parent).map fun site => .join [site] id)
  | (_, .enterWithParents h _ parents id _) => l.setSpan h (some (.join (parents.filterMap l.spans) id))
  | (t, .enterWithLocalParent h _ id _) =>
    l.setSpan h (((l.layers t).head?.bind Layer.here).map fun site => .join [site] id)
  | (_, .dropSpan h _) => (l.setSpan h none).submit ((l.spans h).elim [] Site.records)
  | (_, .pushChildSpans h k) =>
    l.submit ((l.spans h).elim [] fun site => site.under ((l.collected k).getD []))
  | (t, .setLocalParent g h) =>
    match l.spans h with
    | some site => l.opened t ⟨.guard g, some site, [], []⟩
    | none => l
  | (t, .startCollector k) => l.opened t ⟨.collector k, none, [], []⟩
  | (t, .dropGuard g _) =>
    match l.closing t (.guard g) with
    | some (layer, layers) => (l.setLayers t layers).submit (layer.site.elim [] fun site => site.under layer.entries)
    | none => l
  | (t, .collect k c _) =>
    match l.closing t (.collector k) with
    | some (layer, layers) =>
      { l.setLayers t layers with collected := Function.update l.collected c (some layer.entries) }
    | none => { l with collected := Function.update l.collected c (some []) }
  | (t, .dropCollector k) =>
    match l.closing t (.collector k) with
    | some (_, layers) => l.setLayers t layers
    | none => l
  | (t, .enterLocal v _ id _) =>
    match l.layers t with
    | layer :: layers => l.setLayers t (layer.enter v id :: layers)
    | [] => l
  | (t, .dropLocal _ _) =>
    match l.layers t with
    | layer :: layers => l.setLayers t (layer.leave :: layers)
    | [] => l
  | _ => l

def run (as : List (T × Op)) : Lexical T := as.foldl step init

/-! ### Calls in order -/

omit [DecidableEq T] in
/-- The scope is the innermost one and no local span is open in it, or it has no layer. -/
def Closes (l : Lexical T) (t : T) (scope : Scope) : Prop :=
  ((l.layers t).head?.map fun layer => (layer.scope, layer.locals)) = some (scope, []) ∨
    scope ∉ (l.layers t).map Layer.scope

/-- Layers are closed innermost first and after their local spans, and local spans are dropped innermost first. -/
def InOrder (l : Lexical T) : T × Op → Prop
  | (t, .dropGuard g _) => l.Closes t (.guard g)
  | (t, .collect k _ _) => l.Closes t (.collector k)
  | (t, .dropCollector k) => l.Closes t (.collector k)
  | (t, .dropLocal v _) => ((l.layers t).head?.bind fun layer => layer.locals.head?.map Prod.fst) = some v
  | _ => True

/-- All calls of the threads are in order. -/
def Ordered (as : List (T × Op)) : Prop := Interleavings.Along step InOrder init as

end Lexical

end Fastrace
