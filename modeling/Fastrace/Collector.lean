import Fastrace.Record

/-!
# The global collector (`collector/global_collector.rs`)

`handleCommands` is one call of `GlobalCollector::handle_commands` after the channels have been drained: the commands
received (in the order of reception), the anchor drawn by the call and the order in which this call's iteration over
the hash map of active collectors runs are its inputs, gathered in a `Round`.  The loops of the function are the
definitions `startLoop`, …, `staleLoop`; each threads the state its Rust loop mutates.

The debug assertions are those of a release build (absent).  The reporter is modelled by the list of the batches
`report` was called with.
-/

namespace Fastrace

structure Config where
  cancelable : Bool
deriving DecidableEq, Repr

def Config.default : Config := { cancelable := false }

/-- The builder method `Config::cancelable`. -/
def Config.withCancelable (config : Config) (cancelable : Bool) : Config := { config with cancelable := cancelable }

/-- Deprecated in favour of `Config::cancelable`. -/
def Config.reportBeforeRootFinish (config : Config) (reportBeforeRootFinish : Bool) : Config :=
  config.withCancelable reportBeforeRootFinish

/-- Spans of one submission for one token item; `Shared` differs only in holding the set behind an `Arc`. -/
inductive SpanCollection where
  | owned (spans : SpanSet) (traceId : TraceId) (parentId : SpanId)
  | shared (spans : SpanSet) (traceId : TraceId) (parentId : SpanId)
deriving DecidableEq, Repr

abbrev Danglings := HashMap SpanId (List DanglingItem)

structure ActiveCollector where
  spanCollections : List SpanCollection := []
  danglings : Danglings := HashMap.empty

abbrev ActiveCollectors := HashMap CollectId ActiveCollector

/-- The reporter, known by the calls of `report` it has received. -/
structure Reporter where
  reported : List (List SpanRecord) := []

def Reporter.report (reporter : Reporter) (spans : List SpanRecord) : Reporter :=
  { reported := reporter.reported ++ [spans] }

structure GlobalCollector where
  config : Config
  reporter : Option Reporter
  activeCollectors : ActiveCollectors

def GlobalCollector.start (config : Config) : GlobalCollector where
  config := config
  reporter := some {}
  activeCollectors := HashMap.empty

/-! ### Post-processing -/

/-- The common body of `amend_span` and of the loop of `amend_local_span`. -/
def amendRaw (span : RawSpan) (endInstant : Instant) (traceId : TraceId) (parentId : SpanId)
    (spans : List SpanRecord) (dangling : Danglings) (anchor : Anchor) : List SpanRecord × Danglings :=
  match span.rawKind with
  | .span =>
    let beginTimeUnixNs := span.beginInstant.asUnixNanos anchor
    let endTimeUnixNs := endInstant.asUnixNanos anchor
    (spans ++ [{
      traceId := traceId
      spanId := span.id
      parentId := parentId
      beginTimeUnixNs := beginTimeUnixNs
      durationNs := saturatingSub endTimeUnixNs beginTimeUnixNs
      name := span.name
      properties := span.properties.getD []
      events := [] }], dangling)
  | .event =>
    let event : EventRecord := {
      name := span.name
      timestampUnixNs := span.beginInstant.asUnixNanos anchor
      properties := span.properties.getD [] }
    (spans, dangling.entryPush parentId (.event event))
  | .properties => (spans, dangling.entryPush parentId (.properties (span.properties.getD [])))

def amendSpan (span : RawSpan) (traceId : TraceId) (parentId : SpanId) (spans : List SpanRecord)
    (dangling : Danglings) (anchor : Anchor) : List SpanRecord × Danglings :=
  amendRaw span span.endInstant traceId parentId spans dangling anchor

def amendLocalSpan (localSpans : LocalSpansInner) (traceId : TraceId) (parentId : SpanId)
    (spans : List SpanRecord) (dangling : Danglings) (anchor : Anchor) : List SpanRecord × Danglings :=
  localSpans.spans.foldl (fun acc span =>
    let parentId := if span.parentId = default then parentId else span.parentId
    let endInstant := if span.endInstant = Instant.zero then localSpans.endTime else span.endInstant
    amendRaw span endInstant traceId parentId acc.1 acc.2 anchor) (spans, dangling)

/-- The inner loop of `mount_danglings` for one record. -/
def SpanRecord.mount (record : SpanRecord) : List DanglingItem → SpanRecord
  | [] => record
  | .event event :: items => SpanRecord.mount { record with events := record.events ++ [event] } items
  | .properties properties :: items =>
    SpanRecord.mount { record with properties := record.properties ++ properties } items

def mountDanglings : List SpanRecord → Danglings → List SpanRecord × Danglings
  | [], danglings => ([], danglings)
  | record :: records, danglings =>
    if danglings.isEmpty then (record :: records, danglings)
    else
      match danglings.get? record.spanId with
      | some items =>
        let rest := mountDanglings records (danglings.remove record.spanId)
        (record.mount items :: rest.1, rest.2)
      | none =>
        let rest := mountDanglings records danglings
        (record :: rest.1, rest.2)

def amendCollection (collection : SpanCollection) (spans : List SpanRecord) (danglings : Danglings)
    (anchor : Anchor) : List SpanRecord × Danglings :=
  match collection with
  | .owned set traceId parentId =>
    match set with
    | .span rawSpan => amendSpan rawSpan traceId parentId spans danglings anchor
    | .localSpansInner localSpans => amendLocalSpan localSpans traceId parentId spans danglings anchor
    | .sharedLocalSpans localSpans => amendLocalSpan localSpans traceId parentId spans danglings anchor
  | .shared set traceId parentId =>
    match set with
    | .span rawSpan => amendSpan rawSpan traceId parentId spans danglings anchor
    | .localSpansInner localSpans => amendLocalSpan localSpans traceId parentId spans danglings anchor
    | .sharedLocalSpans localSpans => amendLocalSpan localSpans traceId parentId spans danglings anchor

def postprocessSpanCollection (spanCollections : List SpanCollection) (anchor : Anchor)
    (committedRecords : List SpanRecord) (danglings : Danglings) : List SpanRecord × Danglings :=
  let committedLen := committedRecords.length
  let amended := spanCollections.foldl (fun acc collection => amendCollection collection acc.1 acc.2 anchor)
    (committedRecords, danglings)
  let mounted := mountDanglings (amended.1.drop committedLen) amended.2
  (amended.1.take committedLen ++ mounted.1, mounted.2)

/-- `LocalSpansInner::to_span_records`; the parent is given by its trace and span ids. -/
def LocalSpansInner.toSpanRecords (localSpans : LocalSpansInner) (traceId : TraceId) (spanId : SpanId)
    (anchor : Anchor) : List SpanRecord :=
  let amended := amendLocalSpan localSpans traceId spanId [] HashMap.empty anchor
  (mountDanglings amended.1 amended.2).1

/-! ### The loops of `handle_commands` -/

/-- What one call of `handle_commands` takes from outside. -/
structure Round where
  commands : List CollectCommand
  anchor : Anchor
  order : IterOrder CollectId

def startCollects (cmds : List CollectCommand) : List CollectId :=
  cmds.filterMap fun | .startCollect collectId => some collectId | _ => none

def dropCollects (cmds : List CollectCommand) : List CollectId :=
  cmds.filterMap fun | .dropCollect collectId => some collectId | _ => none

def commitCollects (cmds : List CollectCommand) : List CollectId :=
  cmds.filterMap fun | .commitCollect collectId => some collectId | _ => none

def submitSpans (cmds : List CollectCommand) : List SubmitSpans :=
  cmds.filterMap fun | .submitSpans cmd => some cmd | _ => none

def startLoop (active : ActiveCollectors) (ids : List CollectId) : ActiveCollectors :=
  ids.foldl (fun active collectId => active.insert collectId {}) active

def dropLoop (active : ActiveCollectors) (ids : List CollectId) : ActiveCollectors :=
  ids.foldl (fun active collectId => active.remove collectId) active

/-- The active collectors and the stale spans. -/
abbrev SubmitState := ActiveCollectors × List SpanCollection

def submitItem (cancelable : Bool) (state : SubmitState) (collectId : CollectId)
    (collection : SpanCollection) : SubmitState :=
  match state.1.get? collectId with
  | some activeCollector =>
    (state.1.insert collectId
      { activeCollector with spanCollections := activeCollector.spanCollections ++ [collection] }, state.2)
  | none => if !cancelable then (state.1, state.2 ++ [collection]) else state

def submitOne (cancelable : Bool) (state : SubmitState) (cmd : SubmitSpans) : SubmitState :=
  match cmd.collectToken with
  | [item] => submitItem cancelable state item.collectId (.owned cmd.spans item.traceId item.parentId)
  | items => items.foldl (fun state item =>
      submitItem cancelable state item.collectId (.shared cmd.spans item.traceId item.parentId)) state

def submitLoop (cancelable : Bool) (state : SubmitState) (cmds : List SubmitSpans) : SubmitState :=
  cmds.foldl (submitOne cancelable) state

/-- The active collectors and the committed records. -/
abbrev CommitState := ActiveCollectors × List SpanRecord

def commitOne (anchor : Anchor) (state : CommitState) (collectId : CollectId) : CommitState :=
  match state.1.get? collectId with
  | some activeCollector =>
    (state.1.remove collectId,
      (postprocessSpanCollection activeCollector.spanCollections anchor state.2 activeCollector.danglings).1)
  | none => state

def commitLoop (anchor : Anchor) (state : CommitState) (ids : List CollectId) : CommitState :=
  ids.foldl (commitOne anchor) state

/-- One step of `for active_collector in self.active_collectors.values_mut()`. -/
def drainOne (anchor : Anchor) (state : CommitState) (collectId : CollectId) : CommitState :=
  match state.1.get? collectId with
  | some activeCollector =>
    let post :=
      postprocessSpanCollection activeCollector.spanCollections anchor state.2 activeCollector.danglings
    (state.1.insert collectId { spanCollections := [], danglings := post.2 }, post.1)
  | none => state

def drainLoop (anchor : Anchor) (state : CommitState) (ids : List CollectId) : CommitState :=
  ids.foldl (drainOne anchor) state

def staleLoop (anchor : Anchor) (records : List SpanRecord) (stale : List SpanCollection) : List SpanRecord :=
  stale.foldl (fun records spans =>
    (postprocessSpanCollection [spans] anchor records HashMap.empty).1) records

/-- The active collectors and the stale spans once the submissions of a round have been distributed. -/
def distribute (cancelable : Bool) (active : ActiveCollectors) (cmds : List CollectCommand) : SubmitState :=
  submitLoop cancelable (dropLoop (startLoop active (startCollects cmds)) (dropCollects cmds), [])
    (submitSpans cmds)

/-- The body of `handle_commands` when a reporter is set: the new active collectors and `committed_records`. -/
def collectRound (cancelable : Bool) (active : ActiveCollectors) (round : Round) :
    ActiveCollectors × List SpanRecord :=
  let submitted := distribute cancelable active round.commands
  let committed := commitLoop round.anchor (submitted.1, []) (commitCollects round.commands)
  let drained :=
    if !cancelable then drainLoop round.anchor committed (round.order.visit committed.1.keys) else committed
  (drained.1, staleLoop round.anchor drained.2 submitted.2)

def GlobalCollector.handleCommands (collector : GlobalCollector) (round : Round) : GlobalCollector :=
  match collector.reporter with
  | none => collector
  | some reporter =>
    let post := collectRound collector.config.cancelable collector.activeCollectors round
    { collector with activeCollectors := post.1, reporter := some (reporter.report post.2) }

def GlobalCollector.handleRounds (collector : GlobalCollector) (rounds : List Round) : GlobalCollector :=
  rounds.foldl GlobalCollector.handleCommands collector

/-- What the reporter has been given by a run of `handle_commands` calls, call by call. -/
def GlobalCollector.reported (collector : GlobalCollector) : List (List SpanRecord) :=
  (collector.reporter.map Reporter.reported).getD []

end Fastrace
