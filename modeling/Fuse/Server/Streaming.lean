import Fuse.Server.State

/-!
# Streaming endpoints

The server-sent events of `fuse-server/src/streaming.rs` and the subscription
of `fuse-server/src/graphql.rs`.  A stream is the list of its events; a panic
ends it.  A row of an event is kept with the table it was read from and the
schema of its batch, so that the column of each of its cells is known; what is
written out is the text of the cells alone.
-/

namespace Fuse.Server

open Foundation Fuse.Core Engine List

structure SentRow (V : Type) where
  ref : TableRef
  schema : Schema
  cells : Row V

inductive StreamEvent (V : Type) where
  | metadata (columns : List Str)
  | batch (rows : List (SentRow V)) (batchNum batchRows : Nat)
  | progress (batchesSent totalRows totalBytes : Nat)
  | done (totalRows totalBytes batchesSent : Nat)
  | error (message : Str)
  | result (columns : List Str) (rows : List (SentRow V)) (batchIndex : Nat)
    (isLast : Bool)
  | resultError (message : Str) (batchIndex : Nat) (isLast : Bool)

def StreamEvent.rows {V : Type} : StreamEvent V → List (SentRow V)
  | batch rows _ _ => rows
  | result _ rows _ _ => rows
  | _ => []

def StreamEvent.text {V : Type} [ArrowKernels V] :
    StreamEvent V → StreamEvent Str
  | metadata columns => .metadata columns
  | batch rows batchNum batchRows =>
    .batch (rows.map written) batchNum batchRows
  | progress batchesSent totalRows totalBytes =>
    .progress batchesSent totalRows totalBytes
  | done totalRows totalBytes batchesSent =>
    .done totalRows totalBytes batchesSent
  | error message => .error message
  | result columns rows batchIndex isLast =>
    .result columns (rows.map written) batchIndex isLast
  | resultError message batchIndex isLast =>
    .resultError message batchIndex isLast
where
  written (row : SentRow V) : SentRow Str :=
    ⟨⟨[], []⟩, [], row.cells.map (Option.map ArrowKernels.display)⟩

abbrev Tables (V : Type) := TableRef → RecordBatch V

abbrev Message (V : Type) := Except ConnectorError (RecordBatch V)

structure StreamSources (V : Type) where
  registered : Str → Bool
  /-- `get_table_schema`. -/
  tableSchema : Str → Str → Except ConnectorError Schema
  /-- What `execute_streaming` puts on the channel. -/
  sent : Tables V → Str → SubQuery → List (Message V)
  execute : Tables V → Str → SubQuery →
    Except ConnectorError (List (RecordBatch V))
  batchBytes : RecordBatch V → Nat

structure StreamRequest where
  query : QueryRequest
  batchSize : Option Nat := none
  deriving DecidableEq, Repr

section Source

namespace Stream

def parseQualifiedName (name : Str) : Fallible TableRef :=
  match Str.splitOnce "." name with
  | some (datasource, table) => .ok { datasource, table }
  | none => Fallible.fail ("expected 'datasource.table', got '" ++ name ++ "'")

def parsePplSource (query : Str) : Fallible TableRef :=
  let body := (Str.stripStart "source" (Str.trim query)).bind fun s =>
    (Str.stripStart "=" (Str.trimStart s)).map Str.trimStart
  match body with
  | none => Fallible.fail "PPL query must start with 'source = '"
  | some rest =>
    let sourcePart := Str.trim (rest.takeWhile (· != '|'))
    parseQualifiedName (Str.trim (sourcePart.takeWhile (· != ',')))

def parseSqlSource [Unicode] (query : Str) : Fallible TableRef :=
  match Str.find "from " (toLowercase query) with
  | none => Fallible.fail "SQL query must contain FROM clause"
  | some pos => do
      match Str.splitWhitespace (← Str.sliceFrom query (pos + 5)) with
      | [] => Fallible.fail "expected table reference after FROM"
      | token :: _ => parseQualifiedName token

def parseSource [Unicode] (format query : Str) : Fallible TableRef :=
  if format = "ppl" then parsePplSource query else parseSqlSource query

end Stream

end Source

section Events

variable {V : Type}

/-! ## The loop over the channel -/

structure Progress (V : Type) where
  totalRows : Nat := 0
  totalBytes : Nat := 0
  batchesSent : Nat := 0
  buffer : List (SentRow V) := []

def pushRow (batchSize : Nat) (p : Progress V) (row : SentRow V) :
    Progress V × List (StreamEvent V) :=
  let buffer := p.buffer ++ [row]
  if batchSize ≤ buffer.length then
    let batchesSent := p.batchesSent + 1
    let totalRows := p.totalRows + buffer.length
    ({ p with buffer := [], batchesSent, totalRows },
      .batch buffer batchesSent buffer.length :: if batchesSent % 5 = 0 then
          [.progress batchesSent totalRows p.totalBytes]
        else [])
  else ({ p with buffer }, [])

def pushRows (batchSize : Nat) :
    Progress V → List (SentRow V) → Progress V × List (StreamEvent V)
  | p, [] => (p, [])
  | p, row :: rows =>
    let (p, events) := pushRow batchSize p row
    let (p, more) := pushRows batchSize p rows
    (p, events ++ more)

def finish (p : Progress V) : List (StreamEvent V) :=
  if p.buffer.isEmpty then [.done p.totalRows p.totalBytes p.batchesSent]
  else
    let batchesSent := p.batchesSent + 1
    let totalRows := p.totalRows + p.buffer.length
    [.batch p.buffer batchesSent p.buffer.length,
      .done totalRows p.totalBytes batchesSent]

def batchToRows (ref : TableRef) (batch : RecordBatch V) : List (SentRow V) :=
  batch.rows.map fun row => ⟨ref, batch.schema, row⟩

def streamBatches (batchBytes : RecordBatch V → Nat) (batchSize : Nat)
    (ref : TableRef) : Progress V → List (Message V) → List (StreamEvent V)
  | p, [] => finish p
  | _, .error e :: _ => [.error e.toText]
  | p, .ok batch :: messages =>
    let p := { p with totalBytes := p.totalBytes + batchBytes batch }
    let (p, events) := pushRows batchSize p (batchToRows ref batch)
    events ++ streamBatches batchBytes batchSize ref p messages

/-! ## The rows that are sent -/

def rowsBeforeError (ref : TableRef) : List (Message V) → List (SentRow V)
  | [] => []
  | .error _ :: _ => []
  | .ok batch :: messages =>
    batchToRows ref batch ++ rowsBeforeError ref messages

def firstError : List (Message V) → Option ConnectorError
  | [] => none
  | .error e :: _ => some e
  | .ok _ :: messages => firstError messages

def wholeEvents (batchSize : Nat) (error : Option ConnectorError)
    (rows : List (SentRow V)) : List (SentRow V) :=
  if error.isSome then rows.take (rows.length / batchSize * batchSize)
  else rows

structure Fed (batchSize : Nat) (before rows : List (SentRow V))
    (fed : Progress V × List (StreamEvent V)) : Prop where
  order : fed.2.flatMap StreamEvent.rows ++ fed.1.buffer = before ++ rows
  room : fed.1.buffer.length < batchSize
  whole : batchSize ∣ (fed.2.flatMap StreamEvent.rows).length

variable {batchSize : Nat}

/-! ## Chunks -/

def StreamEvent.batchOf : StreamEvent V → Option (List (SentRow V) × Nat × Nat)
  | batch rows batchNum batchRows => some (rows, batchNum, batchRows)
  | _ => none

def StreamEvent.isDone : StreamEvent V → Bool
  | done _ _ _ => true
  | _ => false

/-- Chunks with the numbers and lengths their batches are sent with. -/
def numberedBatches (sent : Nat) (chunks : List (List (SentRow V))) :
    List (List (SentRow V) × Nat × Nat) :=
  (chunks.zipIdx (sent + 1)).map fun (rows, n) => (rows, n, rows.length)

/-- The loop has sent `chunks` of full size and keeps the rest. -/
structure Rechunked (batchSize : Nat) (p : Progress V) (rows : List (SentRow V))
    (fed : Progress V × List (StreamEvent V))
    (chunks : List (List (SentRow V))) : Prop where
  order : chunks.flatten ++ fed.1.buffer = p.buffer ++ rows
  room : fed.1.buffer.length < batchSize
  full : ∀ c ∈ chunks, c.length = batchSize
  rows : fed.2.flatMap StreamEvent.rows = chunks.flatten
  batches : fed.2.filterMap StreamEvent.batchOf =
    numberedBatches p.batchesSent chunks
  notDone : ∀ e ∈ fed.2, e.isDone = false
  batchesSent : fed.1.batchesSent = p.batchesSent + chunks.length
  totalRows : fed.1.totalRows = p.totalRows + chunks.flatten.length

theorem numberedBatches_append (sent : Nat)
    (chunks more : List (List (SentRow V))) :
    numberedBatches sent (chunks ++ more) = numberedBatches sent chunks ++
    numberedBatches (sent + chunks.length) more := by
  simp [numberedBatches, zipIdx_append, Nat.add_right_comm]

theorem pushRow_rechunked {p : Progress V} (h : p.buffer.length < batchSize)
    (row : SentRow V) :
    ∃ chunks, Rechunked batchSize p [row] (pushRow batchSize p row) chunks := by
  unfold pushRow
  dsimp only
  split
  · rename_i hfull
    have hlength : p.buffer.length + 1 = batchSize := by
      rw [length_append, length_singleton] at hfull
      omega
    refine ⟨[p.buffer ++ [row]], ?_⟩
    split <;> constructor <;>
      simp [hlength, numberedBatches, StreamEvent.rows, StreamEvent.batchOf,
        StreamEvent.isDone, Nat.zero_lt_of_lt h]
  · rename_i hroom
    exact ⟨[], by constructor <;> simp_all [numberedBatches]⟩

theorem Rechunked.append {p : Progress V} {rows rows' : List (SentRow V)}
    {fed fed' : Progress V × List (StreamEvent V)}
    {chunks chunks' : List (List (SentRow V))}
    (h : Rechunked batchSize p rows fed chunks)
    (h' : Rechunked batchSize fed.1 rows' fed' chunks') :
    Rechunked batchSize p (rows ++ rows') (fed'.1, fed.2 ++ fed'.2)
    (chunks ++ chunks') where
  order := by rw [flatten_append, append_assoc, h'.order, ← append_assoc,
    h.order, append_assoc]
  room := h'.room
  full := forall_mem_append.mpr ⟨h.full, h'.full⟩
  rows := by simp [h.rows, h'.rows]
  batches := by simp [h.batches, h'.batches, h.batchesSent,
    numberedBatches_append]
  notDone := forall_mem_append.mpr ⟨h.notDone, h'.notDone⟩
  batchesSent := by simp [h'.batchesSent, h.batchesSent, Nat.add_assoc]
  totalRows := by simp [h'.totalRows, h.totalRows, Nat.add_assoc]

theorem pushRows_rechunked (rows : List (SentRow V)) {p : Progress V}
    (h : p.buffer.length < batchSize) :
    ∃ chunks, Rechunked batchSize p rows
    (pushRows batchSize p rows) chunks := by
  induction rows generalizing p with
  | nil => exact ⟨[], by constructor <;> simp [pushRows, numberedBatches, h]⟩
  | cons row rows ih =>
    obtain ⟨chunks, hfirst⟩ := pushRow_rechunked h row
    obtain ⟨more, hrest⟩ := ih hfirst.room
    exact ⟨chunks ++ more, hfirst.append hrest⟩

theorem pushRows_fed (rows : List (SentRow V)) {p : Progress V}
    (h : p.buffer.length < batchSize) :
    Fed batchSize p.buffer rows (pushRows batchSize p rows) := by
  obtain ⟨chunks, hchunks⟩ := pushRows_rechunked rows h
  refine ⟨by rw [hchunks.rows, hchunks.order], hchunks.room, ?_⟩
  have hlengths : chunks.map length = replicate chunks.length batchSize :=
    eq_replicate_iff.mpr (by simpa using hchunks.full)
  rw [hchunks.rows, length_flatten, hlengths, sum_replicate_nat]
  exact Nat.dvd_mul_left _ _

theorem wholeEvents_append (hsize : 0 < batchSize)
    (error : Option ConnectorError)
    {front : List (SentRow V)} (hfront : batchSize ∣ front.length)
    (rows : List (SentRow V)) :
    wholeEvents batchSize error (front ++ rows) = front ++
    wholeEvents batchSize error rows := by
  obtain ⟨k, hk⟩ := hfront
  unfold wholeEvents
  split
  · have hcount : (front ++ rows).length / batchSize * batchSize =
        front.length + rows.length / batchSize * batchSize := by
      rw [length_append, hk, Nat.mul_add_div hsize, Nat.add_mul, Nat.mul_comm k]
    rw [hcount, take_length_add_append]
  · rfl

private theorem finish_rows (p : Progress V) :
    (finish p).flatMap StreamEvent.rows = p.buffer := by
  unfold finish
  split
  · rename_i hempty
    rw [isEmpty_iff.mp hempty]
    rfl
  · simp [StreamEvent.rows]

theorem streamBatches_rows (batchBytes : RecordBatch V → Nat) (ref : TableRef)
    (messages : List (Message V)) : ∀ {p : Progress V},
    p.buffer.length < batchSize →
      (streamBatches batchBytes batchSize ref p messages).flatMap
      StreamEvent.rows = wholeEvents batchSize (firstError messages)
        (p.buffer ++ rowsBeforeError ref messages) := by
  induction messages with
  | nil =>
    intro p _
    simp [streamBatches, finish_rows, wholeEvents, firstError, rowsBeforeError]
  | cons message messages ih =>
    intro p h
    have hsize := Nat.zero_lt_of_lt h
    cases message with
    | error e =>
      have hnone : p.buffer.length / batchSize = 0 := Nat.div_eq_of_lt h
      simp [streamBatches, wholeEvents, firstError,
        rowsBeforeError, StreamEvent.rows, hnone]
    | ok batch =>
      obtain ⟨horder, hroom, hwhole⟩ := pushRows_fed (p :=
        { p with totalBytes := p.totalBytes + batchBytes batch }) (batchToRows
        ref batch) h
      simp only [streamBatches, flatMap_append, firstError, rowsBeforeError]
      rw [ih hroom, ← wholeEvents_append hsize _ hwhole, ← append_assoc, horder,
        append_assoc]

def StreamRequest.rowsPerEvent (req : StreamRequest) : Nat :=
  min (max (req.batchSize.getD 500) 1) 10000

theorem streamBatches_rechunked (batchBytes : RecordBatch V → Nat)
    (ref : TableRef) (batches : List (RecordBatch V)) {p : Progress V}
    (h : p.buffer.length < batchSize) :
    ∃ fed chunks, Rechunked batchSize p
    (batches.flatMap (batchToRows ref)) fed chunks ∧
      streamBatches batchBytes batchSize ref p (batches.map .ok) = fed.2 ++
      finish fed.1 := by
  induction batches generalizing p with
  | nil =>
    exact ⟨(p, []), [], by constructor <;> simp [numberedBatches, h], rfl⟩
  | cons batch batches ih =>
    obtain ⟨chunks, hfirst⟩ := pushRows_rechunked (p :=
      { p with totalBytes := p.totalBytes + batchBytes batch }) (batchToRows ref
      batch) h
    obtain ⟨fed, more, hrest, hstream⟩ := ih hfirst.room
    refine ⟨_, _, { hfirst.append hrest with }, ?_⟩
    simp [streamBatches, hstream]

/-- The rows are sent in order, in batches of the size that was asked for but
for the last, and the stream ends with what was counted. -/
theorem stream_conserves_rows (batchBytes : RecordBatch V → Nat)
    (req : StreamRequest) (ref : TableRef) (batches : List (RecordBatch V)) :
    ∃ body chunks bytes, streamBatches batchBytes req.rowsPerEvent ref {}
    (batches.map .ok) = body ++
        [.done (batches.flatMap (batchToRows ref)).length bytes chunks.length] ∧
      (∀ e ∈ body, e.isDone = false) ∧
      body.filterMap StreamEvent.batchOf = numberedBatches 0 chunks ∧
      chunks.flatten = batches.flatMap (batchToRows ref) ∧
      (∀ c ∈ chunks.dropLast, c.length = req.rowsPerEvent) ∧ ∀ c ∈ chunks,
      c ≠ [] := by
  have hsize : 0 < req.rowsPerEvent := by simp [StreamRequest.rowsPerEvent]
  obtain ⟨fed, chunks, hchunks, hstream⟩ :=
    streamBatches_rechunked batchBytes ref batches (p := {}) hsize
  obtain ⟨horder, hroom, hfull, -, hbatches, hdone, hsent, htotal⟩ := hchunks
  have hne : ∀ c ∈ chunks, c ≠ [] := fun c hc =>
    ne_nil_of_length_pos (hfull c hc ▸ hsize)
  simp only [nil_append, Nat.zero_add] at horder hbatches hsent htotal
  rw [hstream, finish, ← horder]
  split
  · rename_i hempty
    rw [List.isEmpty_iff] at hempty
    refine ⟨fed.2, chunks, fed.1.totalBytes, ?_, hdone, hbatches,
      by simp [hempty], ?_, hne⟩
    · simp [hempty, hsent, htotal]
    · exact fun c hc => hfull c ((dropLast_sublist _).subset hc)
  · rename_i hrest
    rw [List.isEmpty_iff] at hrest
    refine ⟨fed.2 ++ [.batch fed.1.buffer
      (fed.1.batchesSent + 1) fed.1.buffer.length],
      chunks ++ [fed.1.buffer], fed.1.totalBytes, by simp [hsent, htotal], ?_,
      ?_, by simp, by simpa using hfull, ?_⟩
    · simpa [or_imp, forall_and, StreamEvent.isDone] using hdone
    · rw [filterMap_append, hbatches, numberedBatches_append]
      simp [hsent, numberedBatches, StreamEvent.batchOf]
    · simpa [or_imp, forall_and] using ⟨hne, hrest⟩

def orErrorEvent {α : Type} (x : Fallible α)
    (next : α → List (StreamEvent V)) : List (StreamEvent V) :=
  match x with
  | .ok a => next a
  | .error (.error message) => [.error message]
  | .error (.panic _) => []

variable [Unicode] [FloatOps] [SqlParser]

/-! ## The endpoints -/

def streamHandler (sources : StreamSources V) (req : StreamRequest)
    (tables : Tables V) : List (StreamEvent V) :=
  let format := toLowercase req.query.format
  orErrorEvent (Stream.parseSource format req.query.query) fun ref =>
    if !sources.registered ref.datasource then
      [.error (notFoundText ref.datasource)]
    else
      match sources.tableSchema ref.datasource ref.table with
      | .error e => [.error e.toText]
      | .ok schema =>
        .metadata schema.names :: orErrorEvent
          (buildSubQuery req.query.query format ref.table)
            fun subQuery =>
              streamBatches sources.batchBytes req.rowsPerEvent ref {}
              (sources.sent tables ref.datasource subQuery)

def subscriptionTasks (sources : StreamSources V) (query format : Str)
    (refs : List TableRef) : Fallible (List (TableRef × SubQuery)) :=
  refs.mapM fun ref =>
    if !sources.registered ref.datasource then
      Fallible.fail (notFoundText ref.datasource)
    else do return (ref, ← buildSubQuery query format ref.table)

def taskEvent (sources : StreamSources V) (tables : Tables V)
    (total index : Nat) (task : TableRef × SubQuery) : StreamEvent V :=
  let isLast := index + 1 = total
  match sources.execute tables task.1.datasource task.2 with
  | .ok batches => .result ((batches.head?.map fun b => b.schema.names).getD [])
      (batches.flatMap (batchToRows task.1)) index isLast
  | .error e => .resultError e.toText index isLast

def subscribe (sources : StreamSources V) (query format : Str) :
    Fallible (List (TableRef × SubQuery)) := do
  let format := toLowercase format
  let query ← rewriteContains query
  let refs ← parseSources format query
  if refs.isEmpty then Fallible.fail "no datasource.table references found"
  else subscriptionTasks sources query format refs

def queryResults (sources : StreamSources V) (query format : Str)
    (tables : Tables V) : Fallible (List (StreamEvent V)) := do
  let tasks ← subscribe sources query format
  return tasks.mapIdx (taskEvent sources tables tasks.length)

end Events

end Fuse.Server
