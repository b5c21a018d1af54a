import Fuse.Core.Arrow
import Fuse.Core.TypedCells
import Fuse.Foundation.Windows
import Mathlib.Data.List.Induction

/-!
# The OpenTelemetry tables

Spans, metrics and logs are kept in bounded queues (`otel/src/store.rs`).  A
query does not evaluate its filter: `extract_otel_filter` (`otel/src/lib.rs`)
reads a service name and two times off its conjuncts, and the rows that agree
with these are returned.
-/

namespace Fuse.Connectors

open Foundation Fuse.Core Windows List

def saturatingSub (a b : Int64) : Int64 :=
  Int64.ofInt (max (-2 ^ 63) (min (2 ^ 63 - 1) (a.toInt - b.toInt)))

structure SpanRow where
  traceId : Str
  spanId : Str
  parentSpanId : Option Str
  serviceName : Str
  operation : Str
  status : Str
  startTimeNs : Int64
  endTimeNs : Int64
  durationNs : Int64
  attributes : Option Str
  duration : durationNs = saturatingSub endTimeNs startTimeNs
  attributes_ne : attributes ≠ some []

structure MetricRow where
  name : Str
  description : Option Str
  unit : Option Str
  metricType : Str
  value : Str
  timestampNs : Int64
  labels : Option Str
  serviceName : Option Str

structure LogRow where
  timestampNs : Int64
  severity : Str
  body : Str
  serviceName : Option Str
  traceId : Option Str
  spanId : Option Str
  attributes : Option Str

def spansSchema : Schema :=
  [⟨"trace_id", .utf8, false⟩, ⟨"span_id", .utf8, false⟩,
    ⟨"parent_span_id", .utf8, true⟩, ⟨"service_name", .utf8, false⟩,
    ⟨"operation", .utf8, false⟩, ⟨"status", .utf8, false⟩,
    ⟨"start_time_ns", .int64, false⟩, ⟨"end_time_ns", .int64, false⟩,
    ⟨"duration_ns", .int64, false⟩, ⟨"attributes", .utf8, true⟩]

def metricsSchema : Schema :=
  [⟨"name", .utf8, false⟩, ⟨"description", .utf8, true⟩,
    ⟨"unit", .utf8, true⟩, ⟨"metric_type", .utf8, false⟩,
    ⟨"value", .utf8, false⟩, ⟨"timestamp_ns", .int64, false⟩,
    ⟨"labels", .utf8, true⟩, ⟨"service_name", .utf8, true⟩]

def logsSchema : Schema :=
  [⟨"timestamp_ns", .int64, false⟩, ⟨"severity", .utf8, false⟩,
    ⟨"body", .utf8, false⟩, ⟨"service_name", .utf8, true⟩,
    ⟨"trace_id", .utf8, true⟩, ⟨"span_id", .utf8, true⟩,
    ⟨"attributes", .utf8, true⟩]

structure Signal (R : Type) where
  schema : Schema
  cells : R → Row ScalarValue
  fits : ∀ r, rowFits schema (cells r) = true
  serviceName : R → Option Str
  lastTime : R → Int64
  firstTime : R → Int64

def spanSignal : Signal SpanRow where
  schema := spansSchema
  cells r :=
    [some (.utf8 r.traceId), some (.utf8 r.spanId), r.parentSpanId.map .utf8,
      some (.utf8 r.serviceName), some (.utf8 r.operation),
      some (.utf8 r.status), some (.int64 r.startTimeNs),
      some (.int64 r.endTimeNs), some (.int64 r.durationNs),
        r.attributes.map .utf8]
  fits _ := rfl
  serviceName r := some r.serviceName
  lastTime r := r.endTimeNs
  firstTime r := r.startTimeNs

def metricSignal : Signal MetricRow where
  schema := metricsSchema
  cells r :=
    [some (.utf8 r.name), r.description.map .utf8, r.unit.map .utf8,
      some (.utf8 r.metricType), some (.utf8 r.value),
      some (.int64 r.timestampNs), r.labels.map .utf8, r.serviceName.map .utf8]
  fits _ := rfl
  serviceName r := r.serviceName
  lastTime r := r.timestampNs
  firstTime r := r.timestampNs

def logSignal : Signal LogRow where
  schema := logsSchema
  cells r :=
    [some (.int64 r.timestampNs), some (.utf8 r.severity), some (.utf8 r.body),
      r.serviceName.map .utf8, r.traceId.map .utf8, r.spanId.map .utf8,
      r.attributes.map .utf8]
  fits _ := rfl
  serviceName r := r.serviceName
  lastTime r := r.timestampNs
  firstTime r := r.timestampNs

inductive OtelTable where
  | spans | metrics | logs
  deriving DecidableEq, Repr

namespace OtelTable

def name : OtelTable → Str
  | spans => "spans"
  | metrics => "metrics"
  | logs => "logs"

def Row : OtelTable → Type
  | spans => SpanRow
  | metrics => MetricRow
  | logs => LogRow

def signal : (t : OtelTable) → Signal t.Row
  | spans => spanSignal
  | metrics => metricSignal
  | logs => logSignal

end OtelTable

/-- Put a row at the back of a queue, and drop the one at the front of a full
one. -/
def enqueue {R : Type} (capacity : Nat) (rows : List R) (row : R) : List R :=
  (if capacity ≤ rows.length then rows.tail else rows) ++ [row]

structure OtelStore where
  spans : List SpanRow := []
  metrics : List MetricRow := []
  logs : List LogRow := []
  maxSpans : Nat
  maxMetrics : Nat
  maxLogs : Nat

def SpanRow.new (traceId spanId : Str) (parentSpanId : Option Str)
    (serviceName operation status : Str) (startTimeNs endTimeNs : Int64)
    (attributes : Str) : SpanRow where
  traceId := traceId
  spanId := spanId
  parentSpanId := parentSpanId
  serviceName := serviceName
  operation := operation
  status := status
  startTimeNs := startTimeNs
  endTimeNs := endTimeNs
  durationNs := saturatingSub endTimeNs startTimeNs
  attributes := if attributes = [] then none else some attributes
  duration := rfl
  attributes_ne := by by_cases h : attributes = [] <;> simp [h]

inductive Ingest where
  | span (row : SpanRow)
  | metric (row : MetricRow)
  | log (row : LogRow)

def Ingest.row? : (t : OtelTable) → Ingest → Option t.Row
  | .spans, .span row => some row
  | .metrics, .metric row => some row
  | .logs, .log row => some row
  | _, _ => none

def OtelTable.ingest : (t : OtelTable) → t.Row → Ingest
  | .spans => .span
  | .metrics => .metric
  | .logs => .log

namespace OtelStore

variable (s : OtelStore)

def ingest : Ingest → OtelStore
  | .span row => { s with spans := enqueue s.maxSpans s.spans row }
  | .metric row => { s with metrics := enqueue s.maxMetrics s.metrics row }
  | .log row => { s with logs := enqueue s.maxLogs s.logs row }

def rows : (t : OtelTable) → List t.Row
  | .spans => s.spans
  | .metrics => s.metrics
  | .logs => s.logs

def capacity : OtelTable → Nat
  | .spans => s.maxSpans
  | .metrics => s.maxMetrics
  | .logs => s.maxLogs

end OtelStore

structure OtelFilter where
  serviceName : Option Str := none
  minTimeNs : Option Int64 := none
  maxTimeNs : Option Int64 := none
  deriving DecidableEq, Repr

def int64? : ScalarValue → Option Int64
  | .int64 n => some n
  | _ => none

def IsLeastTime (field : Str) (op : ComparisonOp) : Prop :=
  (field = "start_time_ns" ∨ field = "timestamp_ns") ∧ (op = .gte ∨ op = .gt)

def IsGreatestTime (field : Str) (op : ComparisonOp) : Prop :=
  (field = "end_time_ns" ∨ field = "timestamp_ns") ∧ (op = .lte ∨ op = .lt)

instance (field : Str) (op : ComparisonOp) : Decidable (IsLeastTime field op) :=
  inferInstanceAs (Decidable (_ ∧ _))

instance (field : Str) (op : ComparisonOp) :
    Decidable (IsGreatestTime field op) :=
  inferInstanceAs (Decidable (_ ∧ _))

def collectComparison (field : Str) (op : ComparisonOp) (value : ScalarValue)
    (out : OtelFilter) : OtelFilter :=
  if field = "service_name" ∧ op = .eq then
    { out with serviceName := value.text?.or out.serviceName }
  else if IsLeastTime field op then
    { out with minTimeNs := (int64? value).or out.minTimeNs }
  else if IsGreatestTime field op then
    { out with maxTimeNs := (int64? value).or out.maxTimeNs }
  else out

def collectFilter : FilterExpr → OtelFilter → OtelFilter
  | .and l r, out => collectFilter r (collectFilter l out)
  | .comparison field op value, out => collectComparison field op value out
  | _, out => out

def extractOtelFilter (filter : Option FilterExpr) : OtelFilter :=
  filter.elim {} fun expr => collectFilter expr {}

/-- The test of a row in `query_spans_filtered` and its siblings. -/
def OtelFilter.keeps {R : Type} (filter : OtelFilter) (signal : Signal R)
    (r : R) : Bool :=
  filter.serviceName.all (fun svc => signal.serviceName r = some svc) &&
    filter.minTimeNs.all (fun least => !(signal.lastTime r < least)) &&
    filter.maxTimeNs.all (fun greatest => !(greatest < signal.firstTime r))

def Signal.batch {R : Type} (signal : Signal R) (rows : List R) :
    RecordBatch ScalarValue where
  schema := signal.schema
  rows := rows.map signal.cells
  fits := by
    intro row hrow
    obtain ⟨r, -, rfl⟩ := mem_map.mp hrow
    exact signal.fits r

def queryFiltered {R : Type} (signal : Signal R) (rows : List R)
    (limit : Option Nat)
    (filter : OtelFilter) : Option (RecordBatch ScalarValue) :=
  let filtered := rows.reverse.filter (filter.keeps signal)
  if filtered = [] then none
  else
    let n := limit.elim filtered.length (min filtered.length)
    some (signal.batch (filtered.take n))

namespace OtelStore

variable (s : OtelStore)

def querySpansFiltered (limit : Option Nat) (filter : OtelFilter) :
    Option (RecordBatch ScalarValue) :=
  queryFiltered spanSignal s.spans limit filter

def queryMetricsFiltered (limit : Option Nat) (filter : OtelFilter) :
    Option (RecordBatch ScalarValue) :=
  queryFiltered metricSignal s.metrics limit filter

def queryLogsFiltered (limit : Option Nat) (filter : OtelFilter) :
    Option (RecordBatch ScalarValue) :=
  queryFiltered logSignal s.logs limit filter

/-- `OtelConnector::execute`. -/
def execute (query : SubQuery) :
    Except ConnectorError (List (RecordBatch ScalarValue)) :=
  let filter := extractOtelFilter query.filter
  if query.table = "spans" then
    .ok (s.querySpansFiltered query.limit filter).toList
  else if query.table = "metrics" then
    .ok (s.queryMetricsFiltered query.limit filter).toList
  else if query.table = "logs" then
    .ok (s.queryLogsFiltered query.limit filter).toList
  else .error (.queryFailed ("table not found: " ++ query.table))

theorem execute_table {query : SubQuery} {t : OtelTable}
    (h : query.table = t.name) :
    s.execute query = .ok (queryFiltered t.signal (s.rows t) query.limit
      (extractOtelFilter query.filter)).toList := by
  cases t with
  | spans => exact if_pos h
  | metrics =>
    have hspans : query.table ≠ ("spans" : Str) := by
      rw [h]
      decide
    exact (if_neg hspans).trans (if_pos h)
  | logs =>
    have hspans : query.table ≠ ("spans" : Str) := by
      rw [h]
      decide
    have hmetrics : query.table ≠ ("metrics" : Str) := by
      rw [h]
      decide
    exact (if_neg hspans).trans ((if_neg hmetrics).trans (if_pos h))

end OtelStore

variable {R : Type} {filter : Option FilterExpr}

private theorem enqueue_reverse {capacity : Nat} {rows : List R}
    (h : rows.length ≤ max capacity 1) (row : R) :
    (enqueue capacity rows row).reverse = (row :: rows.reverse).take
    (max capacity 1) := by
  unfold enqueue
  split
  · rename_i hfull
    cases rows with
    | nil =>
      rw [take_of_length_le (by simp)]
      rfl
    | cons x xs =>
      have hmax : max capacity 1 = xs.length + 1 := by
        simp only [length_cons] at h hfull
        omega
      rw [hmax]
      simp
  · rename_i hroom
    rw [take_of_length_le (by simp; omega)]
    simp

theorem foldl_enqueue_reverse (capacity : Nat) (history : List R) :
    (history.foldl (enqueue capacity) []).reverse =
      history.reverse.take (max capacity 1) := by
  induction history using List.reverseRecOn with
  | nil => simp
  | append_singleton history row ih =>
    have hlength : (history.foldl (enqueue capacity) []).length ≤
        max capacity 1 := by
      rw [← length_reverse, ih]
      exact length_take_le _ _
    rw [foldl_append, foldl_cons, foldl_nil, enqueue_reverse hlength, ih,
      reverse_append, reverse_singleton, singleton_append]
    have hmax : max capacity 1 = (max capacity 1 - 1) + 1 := by omega
    rw [hmax, take_succ_cons, take_succ_cons, take_take]
    simp

theorem rows_ingest (s : OtelStore) (i : Ingest) (t : OtelTable) :
    (s.ingest i).rows t = (i.row? t).elim (s.rows t)
    (enqueue (s.capacity t) (s.rows t)) := by
  cases i <;> cases t <;> rfl

theorem capacity_ingest (s : OtelStore) (i : Ingest) (t : OtelTable) :
    (s.ingest i).capacity t = s.capacity t := by cases i <;> cases t <;> rfl

theorem rows_foldl_ingest (s : OtelStore) (history : List Ingest)
    (t : OtelTable) :
    (history.foldl OtelStore.ingest s).rows t =
      (history.filterMap (Ingest.row? t)).foldl (enqueue (s.capacity t))
      (s.rows t) := by
  induction history generalizing s with
  | nil => rfl
  | cons i history ih =>
    rw [foldl_cons, ih, rows_ingest, capacity_ingest, filterMap_cons]
    cases i.row? t <;> rfl

def serviceOf : FilterExpr → Option Str
  | .comparison field op value =>
    if field = "service_name" ∧ op = .eq then value.text? else none
  | _ => none

/-- The integer of a comparison that `test` selects. -/
def timeOf (test : Str → ComparisonOp → Prop)
    [∀ field op, Decidable (test field op)] : FilterExpr → Option Int64
  | .comparison field op value =>
    if test field op then int64? value else none
  | _ => none

def leastTimeOf : FilterExpr → Option Int64 := timeOf IsLeastTime

def greatestTimeOf : FilterExpr → Option Int64 := timeOf IsGreatestTime

def lastOf {α : Type} (read : FilterExpr → Option α)
    (filter : Option FilterExpr) : Option α :=
  ((filter.elim [] conjuncts).filterMap read).getLast?

private theorem collectComparison_eq (field : Str) (op : ComparisonOp)
    (value : ScalarValue) (out : OtelFilter) : collectComparison field op
    value out = ⟨(serviceOf (.comparison field op value)).or out.serviceName,
        (leastTimeOf (.comparison field op value)).or out.minTimeNs,
        (greatestTimeOf (.comparison field op value)).or out.maxTimeNs⟩ := by
  rw [collectComparison, serviceOf, leastTimeOf, greatestTimeOf, timeOf, timeOf]
  -- an operator passes at most one of the three tests
  by_cases hservice : field = "service_name" ∧ op = .eq
  · have hleast : ¬IsLeastTime field op := by
      rintro ⟨-, h | h⟩ <;> cases hservice.2.symm.trans h
    have hgreatest : ¬IsGreatestTime field op := by
      rintro ⟨-, h | h⟩ <;> cases hservice.2.symm.trans h
    rw [if_pos hservice, if_pos hservice, if_neg hleast, if_neg hgreatest]
    rfl
  · rw [if_neg hservice, if_neg hservice]
    by_cases hleast : IsLeastTime field op
    · have hgreatest : ¬IsGreatestTime field op := by
        rintro ⟨-, h | h⟩ <;> rcases hleast.2 with h' | h' <;>
          cases h.symm.trans h'
      rw [if_pos hleast, if_pos hleast, if_neg hgreatest]
      rfl
    · rw [if_neg hleast, if_neg hleast]
      split <;> rfl

theorem collectFilter_eq (e : FilterExpr) (out : OtelFilter) :
    collectFilter e out =
    ⟨((conjuncts e).filterMap serviceOf).getLast?.or out.serviceName,
        ((conjuncts e).filterMap leastTimeOf).getLast?.or out.minTimeNs,
        ((conjuncts e).filterMap greatestTimeOf).getLast?.or
        out.maxTimeNs⟩ := by
  have hone : ∀ {α : Type} (read : FilterExpr → Option α) (e : FilterExpr),
      ([e].filterMap read).getLast? = read e := by
    intro α read e
    rw [filterMap_cons]
    cases read e <;> rfl
  induction e generalizing out with
  | and l r ihl ihr =>
    rw [collectFilter, ihl, ihr]
    simp [conjuncts, getLast?_append, Option.or_assoc]
  | comparison field op value =>
    rw [collectFilter, collectComparison_eq]
    simp [conjuncts, hone]
  | _ => rfl

theorem extractOtelFilter_eq (filter : Option FilterExpr) :
    extractOtelFilter filter = ⟨lastOf serviceOf filter,
      lastOf leastTimeOf filter, lastOf greatestTimeOf filter⟩ := by
  cases filter with
  | none => rfl
  | some e =>
    change collectFilter e {} = _
    rw [collectFilter_eq]
    simp [lastOf]

theorem queryFiltered_eq (signal : Signal R) (rows : List R)
    (limit : Option Nat)
    (filter : OtelFilter) : queryFiltered signal rows limit filter =
      if rows.reverse.filter (filter.keeps signal) = [] then none
      else some (signal.batch
          (limited limit (rows.reverse.filter (filter.keeps signal)))) := by
  unfold queryFiltered
  generalize rows.reverse.filter (filter.keeps signal) = filtered
  cases limit with
  | none => simp [limited]
  | some n => simp [limited, ← take_eq_take_min, min_comm]

theorem rows_queryFiltered (signal : Signal R) (rows : List R)
    (limit : Option Nat) (filter : OtelFilter) :
    (queryFiltered signal rows limit filter).toList.flatMap (·.rows) =
      (limited limit (rows.reverse.filter (filter.keeps signal))).map
      signal.cells := by
  rw [queryFiltered_eq]
  split
  · rename_i hempty
    cases limit <;> simp [limited, hempty]
  · simp [Signal.batch]

def OtelStore.new (maxSpans maxMetrics maxLogs : Nat) : OtelStore :=
  { maxSpans, maxMetrics, maxLogs }

def stored (store : OtelStore) (history : List Ingest) (t : OtelTable) :
    List t.Row :=
  (history.filterMap (Ingest.row? t)).reverse.take (max (store.capacity t) 1)

theorem rows_execute (maxSpans maxMetrics maxLogs : Nat) (history : List Ingest)
    {t : OtelTable} {query : SubQuery} (h : query.table = t.name) :
    ∃ batches, (history.foldl OtelStore.ingest
        (.new maxSpans maxMetrics maxLogs)).execute query = .ok batches ∧
      batches.flatMap (·.rows) = (limited query.limit
        ((stored (.new maxSpans maxMetrics maxLogs) history t).filter
          ((extractOtelFilter query.filter).keeps t.signal))).map
        t.signal.cells := by
  refine ⟨_, OtelStore.execute_table _ h, ?_⟩
  have hempty : (OtelStore.new maxSpans maxMetrics maxLogs).rows t = [] := by
    cases t <;> rfl
  rw [rows_queryFiltered, rows_foldl_ingest, hempty, foldl_enqueue_reverse]
  rfl

theorem keeps_iff_all (signal : Signal R) (filter : OtelFilter) (r : R) :
    filter.keeps signal r = true ↔
      (∀ v, filter.serviceName = some v → signal.serviceName r = some v) ∧
      (∀ n, filter.minTimeNs = some n → n ≤ signal.lastTime r) ∧
      ∀ n, filter.maxTimeNs = some n → signal.firstTime r ≤ n := by
  simp only [OtelFilter.keeps, Bool.and_eq_true, Option.all_eq_true, and_assoc,
    decide_eq_true_eq, Bool.not_eq_true', decide_eq_false_iff_not, Int64.not_lt]

structure Agrees (t : OtelTable) (filter : Option FilterExpr) (r : t.Row) :
    Prop where
  service : ∀ v, lastOf serviceOf filter = some v →
    t.signal.serviceName r = some v
  least : ∀ n, lastOf leastTimeOf filter = some n → n ≤ t.signal.lastTime r
  greatest : ∀ n, lastOf greatestTimeOf filter = some n →
    t.signal.firstTime r ≤ n

theorem keeps_iff (t : OtelTable) (filter : Option FilterExpr) (r : t.Row) :
    (extractOtelFilter filter).keeps t.signal r = true ↔ Agrees t filter r := by
  rw [extractOtelFilter_eq, keeps_iff_all]
  exact ⟨fun ⟨hs, hl, hg⟩ => ⟨hs, hl, hg⟩, fun h => ⟨h.1, h.2, h.3⟩⟩

/-- What `query_spans_filtered` asks of a span: the service that is given, and a
time that meets the one given. -/
def SpanRow.Matches (r : SpanRow) (filter : OtelFilter) : Prop :=
  (∀ svc ∈ filter.serviceName, r.serviceName = svc) ∧
    (∀ least ∈ filter.minTimeNs, least ≤ r.endTimeNs) ∧
    ∀ greatest ∈ filter.maxTimeNs, r.startTimeNs ≤ greatest

instance (r : SpanRow) (filter : OtelFilter) : Decidable (r.Matches filter) :=
  have {α : Type} {p : α → Prop} [DecidablePred p] (o : Option α) :
      Decidable (∀ a ∈ o, p a) :=
    Option.decidableForallMem o
  inferInstanceAs (Decidable (_ ∧ _ ∧ _))

theorem keeps_eq_matches (filter : OtelFilter) (r : SpanRow) :
    filter.keeps spanSignal r = decide (r.Matches filter) := by
  rw [Bool.eq_iff_iff, decide_eq_true_iff, keeps_iff_all]
  simp [SpanRow.Matches, spanSignal]

/-- The store of spans is a log of the last `max_spans` of them, which a query
reads backwards. -/
theorem querySpansFiltered_newest {maxSpans : Nat} (hcapacity : 1 ≤ maxSpans)
    (maxMetrics maxLogs : Nat) (history : List Ingest) (limit : Option Nat)
    (filter : OtelFilter) :
    let ingested : List SpanRow := history.filterMap (Ingest.row? .spans)
    let log := ingested.drop (ingested.length - min maxSpans ingested.length)
    let found := log.reverse.filter fun r => r.Matches filter
    (history.foldl OtelStore.ingest
      (.new maxSpans maxMetrics maxLogs)).querySpansFiltered
        limit filter = if found = [] then none else some
          (spanSignal.batch (limited limit found)) := by
  intro ingested log found
  have hspans :
    (history.foldl OtelStore.ingest (.new maxSpans maxMetrics maxLogs)).spans =
      ingested.foldl (enqueue maxSpans) [] := rows_foldl_ingest _ history .spans
  have hlog : (ingested.foldl (enqueue maxSpans) []).reverse = log.reverse := by
    rw [foldl_enqueue_reverse, take_reverse]
    congr 2
    omega
  rw [OtelStore.querySpansFiltered, queryFiltered_eq, hspans, hlog,
    filter_congr fun r _ => keeps_eq_matches filter r]

section Answers

variable {C : Type} [Unicode] (M : CellModel C)

def Signal.cell {R : Type} (signal : Signal R) (r : R) (name : Str) : C :=
  M.ofScalar (((signal.schema.indexOf name).bind fun i =>
    (signal.cells r)[i]?).join.getD .null)

def isTrue (filter : Option FilterExpr) (row : Str → C) : Bool :=
  filter.all fun e => M.filterTruth row e = .tt

def AnswersNewest (store : OtelStore) (history : List Ingest) (t : OtelTable)
    (query : SubQuery) : Prop :=
  ∃ batches, (history.foldl OtelStore.ingest store).execute query =
    .ok batches ∧
    batches.flatMap (·.rows) =
    (limited query.limit ((stored store history t).filter fun r =>
        isTrue M query.filter (t.signal.cell M r))).map t.signal.cells

/-- Every query with this filter is answered with the newest rows on which the
filter is true exactly when the filter asks no more and no less of a row than
the last of its conjuncts on the service name and on the times. -/
theorem otel_exact_iff (t : OtelTable) (filter : Option FilterExpr) :
    (∀ (maxSpans maxMetrics maxLogs : Nat) (history : List Ingest)
      (query : SubQuery), query.table = t.name → query.filter = filter →
      AnswersNewest M (.new maxSpans maxMetrics maxLogs) history t query) ↔
      ∀ r : t.Row, isTrue M filter (t.signal.cell M r) = true ↔
      Agrees t filter r := by
  constructor
  · intro h r
    obtain ⟨batches, hexec, hrows⟩ := h 1 1 1 [t.ingest r]
      { table := t.name, filter := filter } rfl rfl
    obtain ⟨batches', hexec', hrows'⟩ := rows_execute 1 1 1 [t.ingest r]
      (rfl : ({ table := t.name, filter := filter } : SubQuery).table = t.name)
    obtain rfl : batches = batches' := Except.ok.inj (hexec.symm.trans hexec')
    have hstored : stored (.new 1 1 1) [t.ingest r] t = [r] := by
      cases t <;> rfl
    have hsame := hrows.symm.trans hrows'
    rw [hstored] at hsame
    rw [← keeps_iff]
    cases htrue : isTrue M filter (t.signal.cell M r) <;>
      cases hkeeps : (extractOtelFilter filter).keeps t.signal r <;>
      simp [limited, htrue, hkeeps] at hsame ⊢
  · rintro h maxSpans maxMetrics maxLogs history query htable rfl
    obtain ⟨batches, hexec, hrows⟩ :=
      rows_execute maxSpans maxMetrics maxLogs history htable
    refine ⟨batches, hexec, hrows.trans ?_⟩
    congr 2
    refine filter_congr fun r _ => ?_
    rw [Bool.eq_iff_iff, keeps_iff, ← h r]

end Answers

section Examples

attribute [local instance] asciiUnicode integersOnly

def earlySpan : SpanRow := .new "t" "s1" none "cart" "GET" "OK" 5 20 []

def lateSpan : SpanRow := .new "t" "s2" none "shop" "GET" "OK" 15 30 []

theorem newest_of_two_spans :
    1 ≤ 1 ∧ ([Ingest.span earlySpan, .span lateSpan].foldl OtelStore.ingest
      (.new 1 100 100)).querySpansFiltered none {} =
    some (spanSignal.batch [lateSpan]) :=
  ⟨le_refl 1, (querySpansFiltered_newest (le_refl 1) 100 100 _ none
    {}).trans rfl⟩

def spansQuery (filter : FilterExpr) : SubQuery :=
  { table := "spans", filter := some filter, limit := some 1 }

def eitherService : FilterExpr :=
  .or (.comparison "service_name" .eq (.utf8 "cart"))
    (.comparison "service_name" .eq (.utf8 "mail"))

def startsLate : FilterExpr := .comparison "start_time_ns" .gte (.int64 10)

/-- A disjunction is dropped, and a span that starts too early is returned if
it ends late. -/
theorem spans_beside_filter :
    let store := [Ingest.span earlySpan, .span lateSpan].foldl OtelStore.ingest
      (.new 100 100 100)
    let early := [Ingest.span earlySpan].foldl OtelStore.ingest
      (.new 100 100 100)
    (store.execute (spansQuery eitherService) =
      .ok [spanSignal.batch [lateSpan]] ∧ isTrue typedCells (some eitherService)
      (spanSignal.cell typedCells lateSpan) = false ∧
      isTrue typedCells (some eitherService)
      (spanSignal.cell typedCells earlySpan) = true) ∧
    (early.execute (spansQuery startsLate) =
      .ok [spanSignal.batch [earlySpan]] ∧ isTrue typedCells (some startsLate)
        (spanSignal.cell typedCells earlySpan) = false) := by decide +kernel

end Examples

end Fuse.Connectors
