import Fastrace.Collector
import Fastrace.Span
import Fastrace.Steps
import Mathlib.Logic.Function.Basic

/-!
# Programs that trace

A program is a run of calls of the library by several threads, in any order.  The values the calls return are kept
under variables of the program.  A `Span` may be used by every thread; a guard, a local collector and a local span
stay with the thread that made them, on whose stack they live.  Rust's ownership is the partiality of `step`: a value
is used only while it is there, and gone once it is dropped; a call that panics is no step either (the drops of the
unwinding are steps of their own).

`World.sent` lists the commands in the order in which they are sent, with the sending thread.
-/

namespace Fastrace

abbrev Var := Nat

inductive Op where
  | setReporter
  | root (h : Var) (name : String) (parent : SpanContext) (id : SpanId) (now : Instant)
  | enterWithParent (h : Var) (name : String) (parent : Var) (id : SpanId) (now : Instant)
  | enterWithParents (h : Var) (name : String) (parents : List Var) (id : SpanId) (now : Instant)
  | enterWithLocalParent (h : Var) (name : String) (id : SpanId) (now : Instant)
  | withProperties (h : Var) (properties : Properties)
  | addProperties (h : Var) (properties : Properties) (id : SpanId) (now : Instant)
  | addEvent (h : Var) (event : Event) (id : SpanId) (now : Instant)
  | pushChildSpans (h l : Var)
  | cancel (h : Var)
  | dropSpan (h : Var) (now : Instant)
  | setLocalParent (g h : Var)
  | dropGuard (g : Var) (now : Instant)
  | startCollector (k : Var)
  | collect (k l : Var) (now : Instant)
  | dropCollector (k : Var)
  | enterLocal (v : Var) (name : String) (id : SpanId) (now : Instant)
  | localWithProperties (v : Var) (properties : Properties)
  | dropLocal (v : Var) (now : Instant)
  | localAddEvent (event : Event) (id : SpanId) (now : Instant)
  | localAddProperties (properties : Properties) (id : SpanId)

/-- The id the call may draw with `SpanId::next_id()`. -/
def Op.id? : Op → Option SpanId
  | .root _ _ _ id _ => some id
  | .enterWithParent _ _ _ id _ => some id
  | .enterWithParents _ _ _ id _ => some id
  | .enterWithLocalParent _ _ id _ => some id
  | .addProperties _ _ id _ => some id
  | .addEvent _ _ id _ => some id
  | .enterLocal _ _ id _ => some id
  | .localAddEvent _ id _ => some id
  | .localAddProperties _ id => some id
  | _ => none

structure World (T : Type) where
  reporterReady : Bool
  nextCollectId : CollectId
  spans : Var → Option Span
  spanStack : T → LocalSpanStack
  guards : Var → Option (T × LocalParentGuard)
  collectors : Var → Option (T × LocalCollector)
  localSpans : Var → Option (T × LocalSpan)
  /-- The `LocalSpans` collected; their spans are shared by all clones. -/
  collected : Var → Option LocalSpansInner
  sent : List (T × CollectCommand)

namespace World

variable {T : Type} [DecidableEq T]

def init : World T where
  reporterReady := false
  nextCollectId := 0
  spans _ := none
  spanStack _ := LocalSpanStack.withCapacity defaultSpanStackSize
  guards _ := none
  collectors _ := none
  localSpans _ := none
  collected _ := none
  sent := []

def setSpan (w : World T) (h : Var) (span : Option Span) : World T :=
  { w with spans := Function.update w.spans h span }

def setStack (w : World T) (t : T) (stack : LocalSpanStack) : World T :=
  { w with spanStack := Function.update w.spanStack t stack }

def send (w : World T) (t : T) (cmds : List CollectCommand) : World T :=
  { w with sent := w.sent ++ cmds.map fun cmd => (t, cmd) }

/-- The new span goes to a variable that holds none. -/
def newSpan (w : World T) (h : Var) (span : Span) : Option (World T) :=
  if (w.spans h).isNone then some (w.setSpan h (some span)) else none

/-- The value of a variable, for the thread that owns it. -/
def owned {α : Type} (t : T) (value : Option (T × α)) : Option α :=
  value.bind fun p => if p.1 = t then some p.2 else none

def step (w : World T) : T × Op → Option (World T)
  | (_, .setReporter) => some { w with reporterReady := true }
  | (t, .root h name parent id now) =>
    let out := Span.root w.reporterReady w.nextCollectId name parent id now
    ({ w with nextCollectId := out.2.1 }.newSpan h out.1).map fun (w : World T) => w.send t out.2.2
  | (_, .enterWithParent h name parent id now) =>
    (w.spans parent).bind fun parent => w.newSpan h (Span.enterWithParent name parent id now)
  | (_, .enterWithParents h name parents id now) =>
    (parents.mapM w.spans).bind fun parents => w.newSpan h (Span.enterWithParents name parents id now)
  | (t, .enterWithLocalParent h name id now) => w.newSpan h (Span.enterWithStack name (w.spanStack t) id now)
  | (_, .withProperties h properties) =>
    (w.spans h).map fun span => w.setSpan h (some (span.withProperties properties))
  | (t, .addProperties h properties id now) =>
    (w.spans h).map fun span => w.send t (span.addProperties properties id now)
  | (t, .addEvent h event id now) => (w.spans h).map fun span => w.send t (span.addEvent event id now)
  | (t, .pushChildSpans h l) =>
    (w.spans h).bind fun span => (w.collected l).map fun localSpans => w.send t (span.pushChildSpans localSpans)
  | (t, .cancel h) => (w.spans h).map fun span => w.send t span.cancel
  | (t, .dropSpan h now) => (w.spans h).map fun span => (w.setSpan h none).send t (span.drop now)
  | (t, .setLocalParent g h) =>
    (w.spans h).bind fun span =>
      let out := span.attachIntoStack (w.spanStack t)
      if (w.guards g).isNone then
        some { w.setStack t out.2 with guards := Function.update w.guards g (some (t, out.1)) }
      else none
  | (t, .dropGuard g now) =>
    (owned t (w.guards g)).map fun guard =>
      let out := guard.drop (w.spanStack t) now
      { w.setStack t out.2 with guards := Function.update w.guards g none }.send t out.1
  | (t, .startCollector k) =>
    let out := LocalCollector.start (w.spanStack t)
    if (w.collectors k).isNone then
      some { w.setStack t out.2 with collectors := Function.update w.collectors k (some (t, out.1)) }
    else none
  | (t, .collect k l now) =>
    (owned t (w.collectors k)).bind fun collector =>
      let out := collector.collect (w.spanStack t) now
      if (w.collected l).isNone then
        some { w.setStack t out.2 with
          collectors := Function.update w.collectors k none
          collected := Function.update w.collected l (some out.1) }
      else none
  | (t, .dropCollector k) =>
    (owned t (w.collectors k)).map fun collector =>
      { w.setStack t (collector.drop (w.spanStack t)) with collectors := Function.update w.collectors k none }
  | (t, .enterLocal v name id now) =>
    (LocalSpan.enterWithStack name (w.spanStack t) id now).bind fun out =>
      if (w.localSpans v).isNone then
        some { w.setStack t out.2 with localSpans := Function.update w.localSpans v (some (t, out.1)) }
      else none
  | (t, .localWithProperties v properties) =>
    (owned t (w.localSpans v)).bind fun span =>
      (span.withProperties (w.spanStack t) properties).map fun stack => w.setStack t stack
  | (t, .dropLocal v now) =>
    (owned t (w.localSpans v)).bind fun span =>
      (span.drop (w.spanStack t) now).map fun stack =>
        { w.setStack t stack with localSpans := Function.update w.localSpans v none }
  | (t, .localAddEvent event id now) => some (w.setStack t ((w.spanStack t).addEvent id now event))
  | (t, .localAddProperties properties id) => some (w.setStack t ((w.spanStack t).addProperties id properties))

/-- The commands sent so far. -/
def commands (w : World T) : List CollectCommand := w.sent.map Prod.snd

/-- The span of a variable, unless it is a no-op. -/
def inner (w : World T) (h : Var) : Option SpanInner := (w.spans h).bind Span.inner

/-- The spans submitted so far. -/
def submitted (w : World T) : List SubmitSpans := Fastrace.submitSpans w.commands

end World

/-- The ids the calls of a program draw. -/
def drawnIds {T : Type} (as : List (T × Op)) : List SpanId := as.filterMap fun a => a.2.id?

/-- `SpanId::next_id()` is documented to return non-zero ids; here also no id is drawn twice, as is so for prefixes of
their own (`freshIds_of_draws`). -/
structure FreshIds {T : Type} (as : List (T × Op)) : Prop where
  nodup : (drawnIds as).Nodup
  nonzero : default ∉ drawnIds as

theorem drawnIds_append {T : Type} (as bs : List (T × Op)) : drawnIds (as ++ bs) = drawnIds as ++ drawnIds bs :=
  List.filterMap_append

theorem drawnIds_cons {T : Type} (a : T × Op) (as : List (T × Op)) :
    drawnIds (a :: as) = a.2.id?.toList ++ drawnIds as := by
  unfold drawnIds
  rw [List.filterMap_cons]
  cases a.2.id? <;> rfl

theorem FreshIds.before {T : Type} {as bs : List (T × Op)} (h : FreshIds (as ++ bs)) : FreshIds as where
  nodup := by
    have hnodup := h.nodup
    rw [drawnIds_append] at hnodup
    exact List.Sublist.nodup (List.sublist_append_left _ _) hnodup
  nonzero hmem := by
    apply h.nonzero
    rw [drawnIds_append]
    exact List.mem_append_left _ hmem

end Fastrace
