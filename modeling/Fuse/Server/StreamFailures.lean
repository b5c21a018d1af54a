import Fuse.Foundation.Channel
import Fuse.Server.Streaming

/-!
# Streams that fail

The stream handler runs a connector's `execute_streaming` in a task of its own
and reads what the task sends (`streaming.rs`).  The result of the task is
dropped, so the handler tells a task that failed from one that is done only by
an error among the items.
-/

namespace Fuse.Server

open Foundation Fuse.Core Engine Channel List

variable {V : Type}

inductive TaskEnd where
  | returned (result : Except ConnectorError Unit)
  | panicked
  deriving DecidableEq

/-- A run of `execute_streaming`: what it sends as long as someone listens, and
how it ends. -/
structure StreamingTask (V : Type) where
  items : List (Message V)
  ending : TaskEnd

namespace StreamingTask

def Fails (task : StreamingTask V) : Prop :=
  ∃ e, task.ending = .returned (.error e)

def done : StreamingTask V := ⟨[], .returned (.ok ())⟩

def failed (e : ConnectorError) : StreamingTask V := ⟨[], .returned (.error e)⟩

def sending (batch : RecordBatch V) (task : StreamingTask V) :
    StreamingTask V :=
  { task with items := .ok batch :: task.items }

end StreamingTask

def isErrorItem (item : Message V) : Bool := !item.isOk

def SendsError (task : StreamingTask V) : Prop := ∃ e, .error e ∈ task.items

def channelBuffer : Nat := 4

namespace StreamEvent

def isError : StreamEvent V → Bool
  | .error _ => true
  | _ => false

def isQuiet (event : StreamEvent V) : Bool := !event.isError && !event.isDone

end StreamEvent

def Reported (events : List (StreamEvent V)) : Prop :=
  events.any StreamEvent.isError = true ∧ events.any StreamEvent.isDone = false

theorem reported_append {before : List (StreamEvent V)}
    (hquiet : ∀ event ∈ before, event.isQuiet = true)
    (events : List (StreamEvent V)) :
    Reported (before ++ events) ↔ Reported events := by
  have herror : before.any StreamEvent.isError = false := by
    rw [any_eq_false]
    intro event hevent
    have hboth := Bool.and_eq_true_iff.mp (hquiet event hevent)
    simpa using hboth.1
  have hdone : before.any StreamEvent.isDone = false := by
    rw [any_eq_false]
    intro event hevent
    have hboth := Bool.and_eq_true_iff.mp (hquiet event hevent)
    simpa using hboth.2
  simp [Reported, herror, hdone]

theorem pushRow_quiet (batchSize : Nat) (p : Progress V) (row : SentRow V) :
    ∀ event ∈ (pushRow batchSize p row).2, event.isQuiet = true := by
  unfold pushRow
  dsimp only
  split
  · dsimp only
    split
    · simp [StreamEvent.isQuiet, StreamEvent.isError, StreamEvent.isDone]
    · simp [StreamEvent.isQuiet, StreamEvent.isError, StreamEvent.isDone]
  · simp

theorem pushRows_quiet (batchSize : Nat) (rows : List (SentRow V))
    (p : Progress V) :
    ∀ event ∈ (pushRows batchSize p rows).2, event.isQuiet = true := by
  induction rows generalizing p with
  | nil => simp [pushRows]
  | cons row rows ih =>
    intro event hevent
    rcases mem_append.mp hevent with hevent | hevent
    · exact pushRow_quiet batchSize p row event hevent
    · exact ih _ event hevent

theorem not_reported_finish (p : Progress V) : ¬Reported (finish p) := by
  unfold finish
  split <;> simp [Reported, StreamEvent.isError, StreamEvent.isDone]

theorem reported_streamBatches_iff (batchBytes : RecordBatch V → Nat)
    (batchSize : Nat)
    (ref : TableRef) (items : List (Message V)) (p : Progress V) :
    Reported (streamBatches batchBytes batchSize ref p items) ↔ ∃ e,
    .error e ∈ items := by
  induction items generalizing p with
  | nil => simp [streamBatches, not_reported_finish]
  | cons item items ih =>
    cases item with
    | error e =>
      simp [streamBatches, Reported, StreamEvent.isError, StreamEvent.isDone]
    | ok batch =>
      have hquiet := pushRows_quiet batchSize (batchToRows ref batch)
        { p with totalBytes := p.totalBytes + batchBytes batch }
      simp only [streamBatches]
      rw [reported_append hquiet, ih]
      simp

theorem error_mem_upTo_iff (items : List (Message V)) :
    (∃ e, .error e ∈ upTo isErrorItem items) ↔ ∃ e, .error e ∈ items := by
  induction items with
  | nil => rfl
  | cons item items ih =>
    cases item with
    | error e =>
      have hstop : upTo isErrorItem ((.error e : Message V) :: items) =
        [.error e] := if_pos rfl
      rw [hstop]
      exact iff_of_true ⟨e, mem_singleton_self _⟩ ⟨e, mem_cons_self⟩
    | ok batch =>
      have hgo : upTo isErrorItem ((.ok batch : Message V) :: items) =
          .ok batch :: upTo isErrorItem items := if_neg Bool.false_ne_true
      rw [hgo]
      simpa using ih

section Handler

variable [Unicode] [FloatOps] [SqlParser] {sources : StreamSources V}
  {req : StreamRequest}
  {tables : Tables V} {ref : TableRef} {schema : Schema} {subQuery : SubQuery}

structure Starts (sources : StreamSources V) (req : StreamRequest)
    (ref : TableRef) (subQuery : SubQuery) : Prop where
  source : Stream.parseSource (toLowercase req.query.format) req.query.query =
    .ok ref
  registered : sources.registered ref.datasource = true
  schema : ∃ schema, sources.tableSchema ref.datasource ref.table = .ok schema
  subQuery : buildSubQuery req.query.query
    (toLowercase req.query.format) ref.table = .ok subQuery

/-- A task that fails is reported exactly if it sends its error, in whatever
order task and handler take their steps. -/
theorem failed_stream_reported_iff (hstart : Starts sources req ref subQuery)
    {task : StreamingTask V}
    (hsent : Delivers channelBuffer isErrorItem task.items
      (sources.sent tables ref.datasource subQuery)) :
    (task.Fails → Reported (streamHandler sources req tables)) ↔
      (task.Fails → SendsError task) := by
  obtain ⟨schema, hschema⟩ := hstart.schema
  have hevents : streamHandler sources req tables =
      .metadata schema.names :: streamBatches sources.batchBytes
        req.rowsPerEvent ref {}
            (sources.sent tables ref.datasource subQuery) := by
    simp [streamHandler, hstart.source, hstart.registered, hschema,
      hstart.subQuery, orErrorEvent]
  have hmetadata : ∀ event ∈ [StreamEvent.metadata (V := V) schema.names],
      event.isQuiet = true := by simp [StreamEvent.isQuiet, StreamEvent.isError,
        StreamEvent.isDone]
  have hreported := reported_append hmetadata (streamBatches sources.batchBytes
    req.rowsPerEvent ref {} (sources.sent tables ref.datasource subQuery))
  rw [hevents, ← singleton_append, hreported, reported_streamBatches_iff,
    upTo_of_delivers hsent, error_mem_upTo_iff]
  rfl

end Handler

section Connectors

variable {R : Type} (limit : Option Nat)

/-- The loop of `s3-o11y` over the objects of a table: `?` ends it. -/
def s3O11yObjects (readObject : Str → Except ConnectorError (List R))
    (recordsToBatch : List R → Except ConnectorError (RecordBatch V)) :
    List Str → Nat → StreamingTask V
  | [], _ => .done
  | key :: keys, sent =>
    if limit.any (· ≤ sent) then .done
    else
      match readObject key with
      | .error e => .failed e
      | .ok records =>
        let records := limit.elim records fun l => records.take (l - sent)
        if records.isEmpty then
          s3O11yObjects readObject recordsToBatch keys sent
        else
          match recordsToBatch records with
          | .error e => .failed e
          | .ok batch => .sending batch (s3O11yObjects readObject
              recordsToBatch keys (sent + records.length))

def s3O11yStreaming (keysForTable : Except ConnectorError (List Str))
    (readObject : Str → Except ConnectorError (List R))
    (recordsToBatch : List R → Except ConnectorError (RecordBatch V)) :
    StreamingTask V :=
  match keysForTable with
  | .error e => .failed e
  | .ok keys => s3O11yObjects limit readObject recordsToBatch keys 0

end Connectors

section Example

attribute [local instance] asciiUnicode integersOnly

def logLine : RecordBatch Str where
  schema := [{ name := "line", dataType := .utf8, nullable := true }]
  rows := [[some "boot"]]
  fits := by decide

def secondUnreadable : StreamingTask Str :=
  s3O11yStreaming none (.ok ["2024/a.ndjson".toList, "2024/b.ndjson".toList])
    (fun key => if key = "2024/a.ndjson" then .ok [()]
      else .error (.queryFailed "S3 get failed"))
    (fun _ => .ok logLine)

def secondReported : StreamingTask Str :=
  { secondUnreadable with
    items := secondUnreadable.items ++ [.error (.queryFailed "S3 get failed")] }

def streamedBy (task : StreamingTask Str) : StreamSources Str where
  registered ds := ds = "logs"
  tableSchema _ _ := .ok logLine.schema
  sent _ _ _ := upTo isErrorItem task.items
  execute _ _ _ := .ok []
  batchBytes _ := 0

def streamLogs : StreamRequest where
  query := { query := "SELECT * FROM logs.app" }

theorem starts_streamLogs (task : StreamingTask Str) :
    letI := tableParser []
    Starts (streamedBy task) streamLogs ⟨"logs", "app"⟩ { table := "app" } := by
  let := tableParser []
  exact ⟨by decide +kernel, rfl, ⟨_, rfl⟩, by decide +kernel⟩

/-- The client is told that the stream is done after the first object. -/
theorem unreadable_object_done :
    letI := tableParser []
    secondUnreadable.ending = .returned
      (.error (.queryFailed "S3 get failed")) ∧
      ((streamHandler (streamedBy secondUnreadable) streamLogs
        fun _ => logLine).map StreamEvent.isDone) = [false, false, true] ∧
      (streamHandler (streamedBy secondUnreadable) streamLogs
        fun _ => logLine).any StreamEvent.isError = false := by decide +kernel

theorem sent_error_reported :
    letI := tableParser []
    Reported (streamHandler (streamedBy secondReported) streamLogs fun _ =>
        logLine) := by
  let := tableParser []
  have hsent : Delivers channelBuffer isErrorItem secondReported.items
      (upTo isErrorItem secondReported.items) := delivers_upTo (by decide) _
  have hfails : secondReported.Fails := ⟨.queryFailed "S3 get failed", rfl⟩
  exact (failed_stream_reported_iff
      (starts_streamLogs secondReported) hsent).mpr (fun _ =>
    ⟨.queryFailed "S3 get failed", by simp [secondReported]⟩) hfails

end Example

end Fuse.Server
