import Fastrace.LexicalReports

/-!
# What the calls say of a span

By the id of a span: its name and its begin, the properties it has been given, when it has ended, and the events and
properties that have been added to it.  A thread adds to its innermost open local span, or else to its local parent;
what it adds in a local collector outside of all local spans goes to the spans that are given the collected local spans
(`Chronicle.step`).

`Chronicle.Tells` says when a record is what has been said of its span.
-/

namespace Fastrace

structure Note where
  name : String
  beginInstant : Instant
  properties : Properties
  endInstant : Option Instant
deriving DecidableEq, Repr

/-- The record of a span that has ended. -/
def Note.record (note : Note) (ended : Instant) (anchor : Anchor) (key : RecordKey) : SpanRecord where
  traceId := key.traceId
  spanId := key.spanId
  parentId := key.parentId
  beginTimeUnixNs := note.beginInstant.asUnixNanos anchor
  durationNs := saturatingSub (ended.asUnixNanos anchor) (note.beginInstant.asUnixNanos anchor)
  name := note.name
  properties := note.properties
  events := []

/-- What is added to a span. -/
inductive Attachment where
  | event (event : Event) (now : Instant)
  | properties (properties : Properties)
deriving DecidableEq, Repr

def Attachment.item (anchor : Anchor) : Attachment → DanglingItem
  | .event e now => .event ⟨e.name, now.asUnixNanos anchor, e.properties.getD []⟩
  | .properties ps => .properties ps

/-- The span to which is added what a thread adds in the layer. -/
def Layer.target (layer : Layer) : Option SpanId := layer.current.or (layer.site.map Site.id)

/-- The local span of a variable, if it is open in the innermost layer of the thread. -/
def Lexical.openLocal {T : Type} (l : Lexical T) (t : T) (v : Var) : Option SpanId :=
  (l.layers t).head?.bind fun layer => layer.locals.lookup v

structure Chronicle where
  notes : SpanId → Option Note
  attached : SpanId → List Attachment
  /-- What has been added in a local collector outside of all local spans. -/
  loose : Var → List Attachment
  /-- The same of local spans that have been collected. -/
  kept : Var → List Attachment

namespace Chronicle

def init : Chronicle where
  notes _ := none
  attached _ := []
  loose _ := []
  kept _ := []

def start (n : Chronicle) (x : SpanId) (name : String) (now : Instant) : Chronicle :=
  { n with notes := Function.update n.notes x (some ⟨name, now, [], none⟩) }

def amend (n : Chronicle) (x : SpanId) (f : Note → Note) : Chronicle :=
  { n with notes := Function.update n.notes x ((n.notes x).map f) }

def extend (n : Chronicle) (x : SpanId) (properties : Properties) : Chronicle :=
  n.amend x fun note => { note with properties := note.properties ++ properties }

def finish (n : Chronicle) (x : SpanId) (now : Instant) : Chronicle :=
  n.amend x fun note => { note with endInstant := some now }

def attach (n : Chronicle) (x : SpanId) (attachments : List Attachment) : Chronicle :=
  { n with attached := Function.update n.attached x (n.attached x ++ attachments) }

/-- What a thread adds in its innermost layer. -/
def attachIn (n : Chronicle) (layer : Layer) (attachment : Attachment) : Chronicle :=
  match layer.target, layer.scope with
  | some x, _ => n.attach x [attachment]
  | none, .collector k => { n with loose := Function.update n.loose k (n.loose k ++ [attachment]) }
  | none, .guard _ => n

/-- `l` is the meaning of the calls so far. -/
def step {T : Type} (l : Lexical T) (n : Chronicle) : T × Op → Chronicle
  | (_, .root _ name _ id now) => n.start id name now
  | (_, .enterWithParent _ name _ id now) => n.start id name now
  | (_, .enterWithParents _ name _ id now) => n.start id name now
  | (_, .enterWithLocalParent _ name id now) => n.start id name now
  | (_, .enterLocal _ name id now) => n.start id name now
  | (_, .withProperties h properties) => (l.spans h).elim n fun site => n.extend site.id properties
  | (_, .addProperties h properties _ _) =>
    (l.spans h).elim n fun site => n.attach site.id [.properties properties]
  | (_, .addEvent h event _ now) => (l.spans h).elim n fun site => n.attach site.id [.event event now]
  | (_, .pushChildSpans h k) => (l.spans h).elim n fun site => n.attach site.id (n.kept k)
  | (_, .dropSpan h now) => (l.spans h).elim n fun site => n.finish site.id now
  | (_, .startCollector k) => { n with loose := Function.update n.loose k [] }
  | (_, .collect k c _) => { n with kept := Function.update n.kept c (n.loose k) }
  | (t, .localWithProperties v properties) => (l.openLocal t v).elim n fun x => n.extend x properties
  | (t, .dropLocal v now) => (l.openLocal t v).elim n fun x => n.finish x now
  | (t, .localAddEvent event _ now) => (l.layers t).head?.elim n fun layer => n.attachIn layer (.event event now)
  | (t, .localAddProperties properties _) =>
    (l.layers t).head?.elim n fun layer => n.attachIn layer (.properties properties)
  | _ => n

/-- The meaning of the calls, and what they say. -/
def along {T : Type} [DecidableEq T] (as : List (T × Op)) : Lexical T × Chronicle :=
  as.foldl (fun s a => (s.1.step a, s.2.step s.1 a)) (Lexical.init, init)

def run {T : Type} [DecidableEq T] (as : List (T × Op)) : Chronicle := (along as).2

/-- The record is what has been said of its span, with some of what has been added to the span mounted; `anchors` are
those by which instants are converted. -/
def Tells (n : Chronicle) (anchors : List Anchor) (r : SpanRecord) : Prop :=
  ∃ note ended anchor items, n.notes r.spanId = some note ∧ note.endInstant = some ended ∧ anchor ∈ anchors ∧
    r = (note.record ended anchor r.key).mount items ∧
    ∀ item ∈ items, ∃ a ∈ n.attached r.spanId, ∃ anchor ∈ anchors, item = a.item anchor

end Chronicle

/-- The end that a call gives to a local span. -/
def Op.endsAt : Op → Option Instant
  | .dropLocal _ now => some now
  | _ => none

/-- A local span is given properties while its layer is the innermost, as `with_properties` asserts. -/
def Lexical.Current {T : Type} (l : Lexical T) : T × Op → Prop
  | (t, .localWithProperties v _) => (l.openLocal t v).isSome
  | _ => True

end Fastrace
