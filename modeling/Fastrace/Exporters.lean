import Fastrace.Intervals
import Fastrace.Replicas

/-!
# The exporters (`fastrace-opentelemetry/src/lib.rs`, `fastrace-datadog/src/lib.rs`)

Both reporters convert every record by itself and hand the batch over, unless it is empty.  OpenTelemetry keeps all of a
record: the end of a span is computed from its begin and its duration, and since the collector takes a duration for the
difference of two clock readings, the sum does not overflow (`reported_endTime_lt`).  Datadog keeps the lower half of a
trace id, no events, and of the properties with one key the last.
-/

namespace Fastrace

/-! ### The times of reported records -/

section Reported

variable {cancelable : Bool} {c : CollectId} {st : Option TraceState} {round : Round} {rounds : List Round}
  {r : SpanRecord}

/-- The record of a raw span, with attachments or without. -/
def SpanRecord.Made (r : SpanRecord) : Prop :=
  ∃ (i : Item) (anchor : Anchor) (raw : RawSpan) (items : List DanglingItem), r = (i.record anchor raw).mount items

private theorem made_of_mem_recordsOf {d : Waiting} {ts : List TimedItem} (h : r ∈ recordsOf d ts) : r.Made := by
  obtain ⟨head, hhead, items, rfl, -⟩ := mem_mountAll h
  obtain ⟨t, -, hhead⟩ := List.mem_flatMap.1 hhead
  obtain ⟨raw, -, rfl⟩ := List.mem_map.1 hhead
  exact ⟨t.2, t.1, raw, items, rfl⟩

private theorem made_of_traceStep (h : r ∈ (traceStep cancelable c st round).2) : r.Made := by
  unfold traceStep at h
  cases hentered : entered c st round with
  | none =>
    rw [hentered] at h
    cases cancelable with
    | true => cases h
    | false =>
      obtain ⟨i, -, h⟩ := List.mem_flatMap.1 h
      exact made_of_mem_recordsOf h
  | some t =>
    simp only [hentered] at h
    split at h
    · exact made_of_mem_recordsOf h
    · split at h
      · cases h
      · exact made_of_mem_recordsOf h

private theorem made_of_traceOut (h : r ∈ (traceOut cancelable c st rounds).flatten) : r.Made := by
  induction rounds generalizing st with
  | nil => cases h
  | cons round rounds ih =>
    rw [traceOut, List.flatten_cons, List.mem_append] at h
    exact h.elim made_of_traceStep ih

/-- In every run of the collector, a reported record ends before the clock does. -/
theorem reported_endTime_lt {config : Config}
    (h : r ∈ ((GlobalCollector.start config).handleRounds rounds).reported.flatten) : r.endTimeUnixNs < 2 ^ 64 := by
  obtain ⟨c, h⟩ := exists_reportedFor h
  rw [reportedFor_eq] at h
  obtain ⟨i, anchor, raw, items, rfl⟩ := made_of_traceOut h
  have hend : ((i.record anchor raw).mount items).endTimeUnixNs = (i.record anchor raw).endTimeUnixNs := by
    rw [mount_eq]
    rfl
  rw [hend, record_endTimeUnixNs]
  exact max_lt (UInt64.toNat_lt _) (UInt64.toNat_lt _)

end Reported

/-! ### OpenTelemetry -/

namespace OpenTelemetry

inductive SpanKind where
  | client
  | server
  | producer
  | consumer
  | internal
deriving DecidableEq, Repr

/-- The status of a span; `Status::default()` is `Unset`. -/
inductive Status where
  | unset
  | error (description : String)
  | ok
deriving DecidableEq, Repr

structure KeyValue where
  key : String
  value : String
deriving DecidableEq, Repr

/-- A time is given by its nanoseconds since `UNIX_EPOCH`. -/
structure Event where
  name : String
  timestamp : Nat
  attributes : List KeyValue
  droppedAttributesCount : Nat
deriving DecidableEq, Repr

/-- `opentelemetry::trace::SpanContext`. -/
structure Context where
  traceId : BitVec 128
  spanId : BitVec 64
  traceFlags : UInt8
  isRemote : Bool
  traceState : List (String × String)
deriving DecidableEq, Repr

/-- What the exporter is given of a span; it has no links. -/
structure SpanData (σ : Type) where
  spanContext : Context
  parentSpanId : BitVec 64
  spanKind : SpanKind
  name : String
  startTime : Nat
  endTime : Nat
  attributes : List KeyValue
  droppedAttributesCount : Nat
  events : List Event
  status : Status
  instrumentationScope : σ

variable {σ : Type}

structure OpenTelemetryReporter (σ : Type) where
  spanKind : SpanKind
  instrumentationScope : σ

def mapPropsToKvs (props : Properties) : List KeyValue := props.map fun (k, v) => ⟨k, v⟩

def mapEvents (events : List EventRecord) : List Event :=
  events.map fun event => ⟨event.name, event.timestampUnixNs.toNat, mapPropsToKvs event.properties, 0⟩

/-- The begin and the duration are added on 64 bits. -/
def OpenTelemetryReporter.convertSpan (reporter : OpenTelemetryReporter σ) (record : SpanRecord) : SpanData σ where
  spanContext := ⟨record.traceId.val, record.spanId.val, 0, false, []⟩
  parentSpanId := record.parentId.val
  spanKind := reporter.spanKind
  name := record.name
  startTime := record.beginTimeUnixNs.toNat
  endTime := (record.beginTimeUnixNs + record.durationNs).toNat
  attributes := mapPropsToKvs record.properties
  droppedAttributesCount := 0
  events := mapEvents record.events
  status := .unset
  instrumentationScope := reporter.instrumentationScope

def OpenTelemetryReporter.convert (reporter : OpenTelemetryReporter σ) (spans : List SpanRecord) : List (SpanData σ) :=
  spans.map reporter.convertSpan

/-- The batches that a call of `report` hands to the exporter; an error of the exporter is only logged. -/
def OpenTelemetryReporter.report (reporter : OpenTelemetryReporter σ) (spans : List SpanRecord) :
    List (List (SpanData σ)) :=
  if spans.isEmpty then [] else [reporter.convert spans]

/-! What the data says. -/

def readKvs (kvs : List KeyValue) : Properties := kvs.map fun kv => (kv.key, kv.value)

def readEvent (event : Event) : EventRecord := ⟨event.name, .ofNat event.timestamp, readKvs event.attributes⟩

def readSpan (data : SpanData σ) : SpanRecord where
  traceId := ⟨data.spanContext.traceId⟩
  spanId := ⟨data.spanContext.spanId⟩
  parentId := ⟨data.parentSpanId⟩
  beginTimeUnixNs := .ofNat data.startTime
  durationNs := .ofNat (data.endTime - data.startTime)
  name := data.name
  properties := readKvs data.attributes
  events := data.events.map readEvent

private theorem readKvs_mapPropsToKvs (props : Properties) : readKvs (mapPropsToKvs props) = props := by
  unfold readKvs mapPropsToKvs
  rw [List.map_map]
  exact List.map_id' props

private theorem readEvents_mapEvents (events : List EventRecord) : (mapEvents events).map readEvent = events := by
  unfold mapEvents
  rw [List.map_map]
  refine (List.map_congr_left fun event _ => ?_).trans (List.map_id' events)
  simp only [Function.comp_apply, readEvent, readKvs_mapPropsToKvs, UInt64.ofNat_toNat]

variable {reporter : OpenTelemetryReporter σ} {record : SpanRecord}

private theorem convertSpan_endTime (h : record.endTimeUnixNs < 2 ^ 64) :
    (reporter.convertSpan record).endTime = record.endTimeUnixNs := by
  unfold SpanRecord.endTimeUnixNs at h ⊢
  exact (UInt64.toNat_add ..).trans (Nat.mod_eq_of_lt h)

private theorem readSpan_convertSpan (h : record.endTimeUnixNs < 2 ^ 64) :
    readSpan (reporter.convertSpan record) = record := by
  have hduration : (reporter.convertSpan record).endTime - (reporter.convertSpan record).startTime =
      record.durationNs.toNat := by
    rw [convertSpan_endTime h]
    exact Nat.add_sub_cancel_left ..
  unfold readSpan
  rw [hduration]
  simp only [OpenTelemetryReporter.convertSpan, readKvs_mapPropsToKvs, readEvents_mapEvents, UInt64.ofNat_toNat]

/-- In every run of the collector with an OpenTelemetry reporter the exporter is given all records, call by call and
unchanged but for calls without records, and no span ends before it starts. -/
theorem exported_eq_reported (reporter : OpenTelemetryReporter σ) (config : Config) (rounds : List Round) :
    let reported := ((GlobalCollector.start config).handleRounds rounds).reported
    (reported.flatMap reporter.report).map (List.map readSpan) = reported.filter (· ≠ []) ∧
      ∀ batch ∈ reported.flatMap reporter.report, ∀ data ∈ batch, data.startTime ≤ data.endTime := by
  intro reported
  have hend : ∀ spans ∈ reported, ∀ record ∈ spans, record.endTimeUnixNs < 2 ^ 64 := fun spans hspans record hrecord =>
    reported_endTime_lt (List.mem_flatten.2 ⟨spans, hspans, hrecord⟩)
  clear_value reported
  constructor
  · induction reported with
    | nil => rfl
    | cons spans reported ih =>
      rw [List.forall_mem_cons] at hend
      rw [List.flatMap_cons, List.map_append, ih hend.2]
      cases spans with
      | nil => rfl
      | cons record spans =>
        have hread : (reporter.convert (record :: spans)).map readSpan = record :: spans := by
          rw [OpenTelemetryReporter.convert, List.map_map]
          exact (List.map_congr_left fun r hr => readSpan_convertSpan (hend.1 r hr)).trans (List.map_id' _)
        rw [List.filter_cons_of_pos (by simp), OpenTelemetryReporter.report, if_neg (by simp), List.map_singleton,
          hread]
        rfl
  · intro batch hbatch data hdata
    obtain ⟨spans, hspans, hbatch⟩ := List.mem_flatMap.1 hbatch
    unfold OpenTelemetryReporter.report at hbatch
    split at hbatch
    · cases hbatch
    · cases List.mem_singleton.1 hbatch
      obtain ⟨record, hrecord, rfl⟩ := List.mem_map.1 hdata
      rw [convertSpan_endTime (hend spans hspans record hrecord)]
      exact Nat.le_add_right ..

end OpenTelemetry

/-! ### Datadog -/

namespace Datadog

structure DatadogSpan where
  name : String
  service : String
  traceType : String
  resource : String
  start : Int64
  duration : Int64
  props : Option (HashMap String String)
  errorCode : Int32
  spanId : BitVec 64
  traceId : BitVec 64
  parentId : BitVec 64

structure DatadogReporter where
  serviceName : String
  resource : String
  traceType : String

/-- `collect()` into a hash map. -/
def collectProps (props : Properties) : HashMap String String :=
  props.foldl (fun props p => props.insert p.1 p.2) HashMap.empty

def DatadogReporter.convertSpan (reporter : DatadogReporter) (s : SpanRecord) : DatadogSpan where
  name := s.name
  service := reporter.serviceName
  traceType := reporter.traceType
  resource := reporter.resource
  start := s.beginTimeUnixNs.toInt64
  duration := s.durationNs.toInt64
  props := if s.properties.isEmpty then none else some (collectProps s.properties)
  errorCode := 0
  spanId := s.spanId.val
  traceId := s.traceId.val.setWidth 64
  parentId := s.parentId.val

def DatadogReporter.convert (reporter : DatadogReporter) (spans : List SpanRecord) : List DatadogSpan :=
  spans.map reporter.convertSpan

/-- The batches that a call of `report` serializes and posts; an error is only logged. -/
def DatadogReporter.report (reporter : DatadogReporter) (spans : List SpanRecord) : List (List DatadogSpan) :=
  if spans.isEmpty then [] else [reporter.convert spans]

/-- The last property with the key. -/
def lastValue (props : Properties) (key : String) : Option String := (props.reverse.find? (·.1 = key)).map (·.2)

private theorem get?_collectProps (props : Properties) (key : String) :
    (collectProps props).get? key = lastValue props key := by
  induction props using List.reverseRecOn with
  | nil => rfl
  | append_singleton props p ih =>
    have hfold : collectProps (props ++ [p]) = (collectProps props).insert p.1 p.2 := by
      rw [collectProps, List.foldl_append]
      rfl
    rw [hfold, HashMap.get?_insert]
    by_cases hkey : key = p.1
    · subst hkey
      simp [lastValue]
    · rw [if_neg hkey, ih]
      simp [lastValue, Ne.symm hkey]

/-- What is seen of a record.  The times are taken for signed numbers. -/
structure Shows (span : DatadogSpan) (record : SpanRecord) : Prop where
  traceId : span.traceId = record.traceId.val.setWidth 64
  spanId : span.spanId = record.spanId.val
  parentId : span.parentId = record.parentId.val
  name : span.name = record.name
  start : record.beginTimeUnixNs.toNat < 2 ^ 63 → span.start.toInt = record.beginTimeUnixNs.toNat
  finish : record.endTimeUnixNs < 2 ^ 63 → span.start.toInt + span.duration.toInt = record.endTimeUnixNs
  property : ∀ key, (span.props.bind fun props => props.get? key) = lastValue record.properties key

private theorem toInt_toInt64 {x : UInt64} (h : x.toNat < 2 ^ 63) : x.toInt64.toInt = x.toNat := by
  change x.toBitVec.toInt = _
  have hnat : x.toBitVec.toNat = x.toNat := rfl
  rw [BitVec.toInt_eq_toNat_cond, if_pos (by omega), hnat]

private theorem shows_convertSpan (reporter : DatadogReporter) (record : SpanRecord) :
    Shows (reporter.convertSpan record) record where
  traceId := rfl
  spanId := rfl
  parentId := rfl
  name := rfl
  start := toInt_toInt64
  finish h := by
    unfold SpanRecord.endTimeUnixNs at h ⊢
    change record.beginTimeUnixNs.toInt64.toInt + record.durationNs.toInt64.toInt = _
    rw [toInt_toInt64 (by omega), toInt_toInt64 (by omega)]
    rfl
  property key := by
    unfold DatadogReporter.convertSpan
    cases hprops : record.properties with
    | nil => rfl
    | cons p props =>
      simp only [List.isEmpty_cons, Bool.false_eq_true, if_false, Option.bind_some]
      rw [get?_collectProps]

/-- In every run of the collector with a Datadog reporter all records are posted, call by call. -/
theorem posted_shows (reporter : DatadogReporter) (config : Config) (rounds : List Round) :
    let reported := ((GlobalCollector.start config).handleRounds rounds).reported
    List.Forall₂ (List.Forall₂ Shows) (reported.flatMap reporter.report) (reported.filter (· ≠ [])) := by
  intro reported
  induction reported with
  | nil => exact .nil
  | cons spans reported ih =>
    cases spans with
    | nil => exact ih
    | cons record spans =>
      rw [List.filter_cons_of_pos (by simp)]
      refine .cons ?_ ih
      rw [DatadogReporter.convert, List.forall₂_map_left_iff, List.forall₂_same]
      exact fun r _ => shows_convertSpan reporter r

end Datadog

end Fastrace
