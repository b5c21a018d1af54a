import Fuse.Server.ColumnSecurity
import Fuse.Server.Streaming

/-!
# Column policies and streams

Neither streaming endpoint asks the policies anything.  What their events hold
is what the connectors send, so a denied field stays hidden exactly when it is
not among the columns of the rows that are sent.
-/

namespace Fuse.Server

open Foundation Fuse.Core Engine List

variable {V : Type}

/-! ## What is denied -/

def DeniedColumn (engine : PolicyEngine) (user : UserContext)
    (columns : Columns) (ref : TableRef) (column : Str) : Prop :=
  ∃ field, columns ref column field ∧
    engine.evaluate ref.datasource ref.table user field = .deny

def SentRow.Exposes (denied : TableRef → Str → Prop) (row : SentRow V) : Prop :=
  ∃ (i : Nat) (field : Field) (cell : Option V),
    row.schema[i]? = some field ∧ row.cells[i]? = some cell ∧
    denied row.ref field.name

def RowAgrees (denied : Str → Prop) (schema : Schema) (row row' : Row V) :
    Prop :=
  ∀ (i : Nat) (field : Field), schema[i]? = some field → ¬ denied field.name →
    row[i]? = row'[i]?

def BatchAgrees (denied : Str → Prop) (b b' : RecordBatch V) : Prop :=
  b.schema = b'.schema ∧ List.Forall₂ (RowAgrees denied b.schema) b.rows b'.rows

inductive MessageAgrees (denied : Str → Prop) : Message V → Message V → Prop
  | error (e : ConnectorError) : MessageAgrees denied (.error e) (.error e)
  | ok {b b' : RecordBatch V} : BatchAgrees denied b b' →
    MessageAgrees denied (.ok b) (.ok b')

inductive AnswerAgrees (denied : Str → Prop) :
    Except ConnectorError (List (RecordBatch V)) →
      Except ConnectorError (List (RecordBatch V)) → Prop
  | error (e : ConnectorError) : AnswerAgrees denied (.error e) (.error e)
  | ok {bs bs' : List (RecordBatch V)} :
    List.Forall₂ (BatchAgrees denied) bs bs' →
      AnswerAgrees denied (.ok bs) (.ok bs')

def TablesAgree (engine : PolicyEngine) (user : UserContext)
    (tables tables' : Tables V) : Prop :=
  ∀ ref : TableRef, BatchAgrees
    (fun field => engine.evaluate ref.datasource ref.table user field = .deny)
    (tables ref) (tables' ref)

/-! ## Batches without a denied column -/

variable {denied : TableRef → Str → Prop} {ref : TableRef}
  {messages messages' : List (Message V)} {batchSize : Nat}

theorem exposes_batchToRows {batch : RecordBatch V} {row : SentRow V}
    (hrow : row ∈ batchToRows ref batch) :
    row.Exposes denied ↔ ∃ field ∈ batch.schema, denied ref field.name := by
  obtain ⟨cells, hcells, rfl⟩ := mem_map.mp hrow
  have hlength := RecordBatch.length_of_mem hcells
  constructor
  · rintro ⟨i, field, cell, hfield, -, hdenied⟩
    exact ⟨field, mem_of_getElem? hfield, hdenied⟩
  · rintro ⟨field, hmem, hdenied⟩
    obtain ⟨i, hi, rfl⟩ := getElem_of_mem hmem
    have hi' : i < cells.length := hlength ▸ hi
    exact ⟨i, _, cells[i], getElem?_eq_getElem hi, getElem?_eq_getElem hi',
      hdenied⟩

theorem RowAgrees.eq {denied : Str → Prop} {schema : Schema}
    {row row' : Row V} (h : RowAgrees denied schema row row')
    (hclean : ∀ field ∈ schema, ¬ denied field.name)
    (hlength : row.length = schema.length)
    (hlength' : row'.length = schema.length) : row = row' := by
  apply ext_getElem?
  intro i
  by_cases hi : i < schema.length
  · exact h i schema[i] (getElem?_eq_getElem hi) (hclean _ (getElem_mem hi))
  · rw [getElem?_eq_none (by omega), getElem?_eq_none (by omega)]

theorem BatchAgrees.eq {denied : Str → Prop} {b b' : RecordBatch V}
    (h : BatchAgrees denied b b')
    (hclean : b.rows = [] ∨ ∀ field ∈ b.schema, ¬ denied field.name) :
    b = b' := by
  obtain ⟨hschema, hrows⟩ := h
  have hsame : b.rows = b'.rows := by
    rcases hclean with hempty | hclean
    · rw [hempty] at hrows ⊢
      exact (forall₂_nil_left_iff.mp hrows).symm
    refine ext_getElem hrows.length_eq fun i hi hi' => ?_
    refine RowAgrees.eq ((forall₂_iff_get.mp hrows).2 i hi hi') hclean
      (RecordBatch.length_of_mem (getElem_mem hi)) ?_
    rw [hschema]
    exact RecordBatch.length_of_mem (getElem_mem hi')
  cases b
  cases b'
  cases hschema
  cases hsame
  rfl

/-! ## Two runs of a stream -/

theorem messages_shape {denied : Str → Prop} (ref : TableRef)
    (h : List.Forall₂ (MessageAgrees denied) messages messages') :
    firstError messages = firstError messages' ∧
    (rowsBeforeError ref messages).length =
        (rowsBeforeError ref messages').length := by
  induction h with
  | nil => exact ⟨rfl, rfl⟩
  | cons hmessage _ ih =>
    cases hmessage with
    | error e => exact ⟨rfl, rfl⟩
    | ok hbatch =>
      refine ⟨ih.1, ?_⟩
      simp [rowsBeforeError, batchToRows, ih.2, hbatch.2.length_eq]

theorem pushRows_room (rows : List (SentRow V)) :
    ∀ {p : Progress V}, p.buffer.length + rows.length < batchSize →
      pushRows batchSize p rows = ({ p with buffer := p.buffer ++ rows },
        []) := by
  induction rows with
  | nil =>
    intro p _
    simp [pushRows]
  | cons row rows ih =>
    intro p h
    rw [length_cons] at h
    have hrow : pushRow batchSize p row =
        ({ p with buffer := p.buffer ++ [row] }, []) := by
      unfold pushRow
      dsimp only
      rw [if_neg]
      simp only [length_append, length_singleton]
      omega
    have hrest := ih (p := { p with buffer := p.buffer ++ [row] }) (by
      simp only [length_append, length_singleton]
      omega)
    simp [pushRows, hrow, hrest]

theorem streamBatches_silent (batchBytes : RecordBatch V → Nat)
    {e : ConnectorError} (messages : List (Message V)) : ∀ {p : Progress V},
    firstError messages = some e →
      p.buffer.length + (rowsBeforeError ref messages).length < batchSize →
      streamBatches batchBytes batchSize ref p messages =
        [.error e.toText] := by
  induction messages with
  | nil =>
    intro p h
    cases h
  | cons message messages ih =>
    intro p herror hroom
    cases message with
    | error e' =>
      cases herror
      rfl
    | ok batch =>
      simp only [rowsBeforeError, length_append] at hroom
      simp only [streamBatches]
      rw [pushRows_room _ (by simp only; omega)]
      refine (nil_append _).trans (ih herror ?_)
      simp only [length_append]
      omega

/-- If a batch with rows and a denied column comes and no such row is sent, the
stream ends in an error before the buffer is full. -/
theorem held_back {b : RecordBatch V} {messages : List (Message V)}
    {p : Progress V} (hroom : p.buffer.length < batchSize) (hrows : b.rows ≠ [])
    (hdenied : ∃ field ∈ b.schema, denied ref field.name)
    (hhidden : ∀ row ∈ wholeEvents batchSize (firstError (.ok b :: messages))
      (p.buffer ++ rowsBeforeError ref (.ok b :: messages)),
      ¬ row.Exposes denied) : ∃ e, firstError (.ok b :: messages) = some e ∧
      p.buffer.length + (rowsBeforeError ref (.ok b :: messages)).length <
      batchSize := by
  obtain ⟨row, rows, hcons⟩ := exists_cons_of_ne_nil hrows
  have hfirst : batchToRows ref b =
      ⟨ref, b.schema, row⟩ :: rows.map fun r => ⟨ref, b.schema, r⟩ := by
    rw [batchToRows, hcons, map_cons]
  have hexposes : (⟨ref, b.schema, row⟩ : SentRow V).Exposes denied :=
    (exposes_batchToRows (hfirst ▸ mem_cons_self)).mpr hdenied
  generalize hall : p.buffer ++ rowsBeforeError ref (.ok b :: messages) = all
    at hhidden
  have hat : all[p.buffer.length]? = some ⟨ref, b.schema, row⟩ := by
    rw [← hall, rowsBeforeError, hfirst, getElem?_append_right (by rfl),
      Nat.sub_self]
    rfl
  cases herror : firstError (.ok b :: messages) with
  | none =>
    rw [herror] at hhidden
    exact absurd hexposes (hhidden _ (mem_of_getElem? hat))
  | some e =>
    refine ⟨e, rfl, ?_⟩
    rw [← length_append, hall]
    by_contra hmany
    refine absurd hexposes (hhidden _ ?_)
    rw [herror]
    change _ ∈ all.take (all.length / batchSize * batchSize)
    have hchunk : batchSize ≤ all.length / batchSize * batchSize := by
      have hpos : 1 ≤ all.length / batchSize :=
        (Nat.one_le_div_iff (Nat.zero_lt_of_lt hroom)).mpr (by omega)
      calc batchSize = 1 * batchSize := (Nat.one_mul _).symm
        _ ≤ all.length / batchSize * batchSize := Nat.mul_le_mul_right _ hpos
    refine mem_of_getElem? (i := p.buffer.length) ?_
    rw [getElem?_take, if_pos (by omega)]
    exact hat

/-- Two runs on messages that agree are one run, if no denied column is sent. -/
theorem streamBatches_agree (batchBytes : RecordBatch V → Nat)
    (h : List.Forall₂ (MessageAgrees (denied ref)) messages messages') :
    ∀ {p : Progress V}, p.buffer.length < batchSize →
      (∀ row ∈ wholeEvents batchSize (firstError messages)
        (p.buffer ++ rowsBeforeError ref messages), ¬ row.Exposes denied) →
      streamBatches batchBytes batchSize ref p messages =
        streamBatches batchBytes batchSize ref p messages' := by
  induction h with
  | nil =>
    intro p _ _
    rfl
  | @cons message message' messages messages' hmessage hmessages ih =>
    intro p hroom hhidden
    cases hmessage with
    | error e => rfl
    | @ok b b' hbatch =>
      by_cases hclean : b.rows = [] ∨ ∀ field ∈
        b.schema, ¬ denied ref field.name
      · cases hbatch.eq hclean
        obtain ⟨horder, hroom', hwhole⟩ := pushRows_fed (p :=
          { p with totalBytes := p.totalBytes + batchBytes b }) (batchToRows ref
          b) hroom
        simp only [streamBatches]
        rw [ih hroom']
        intro row hrow
        refine hhidden row ?_
        simp only [firstError, rowsBeforeError]
        rw [← append_assoc, ← horder, append_assoc,
          wholeEvents_append (Nat.zero_lt_of_lt hroom) _ hwhole]
        exact mem_append_right _ hrow
      · -- its first row is not sent, so nothing is sent from here on
        obtain ⟨hrows, hdenied⟩ := not_or.mp hclean
        have hdenied : ∃ field ∈ b.schema,
          denied ref field.name := by simpa using hdenied
        obtain ⟨e, herror, hfew⟩ := held_back hroom hrows hdenied hhidden
        obtain ⟨herrors, hlengths⟩ :=
          messages_shape ref (.cons (.ok hbatch) hmessages)
        rw [streamBatches_silent batchBytes _ herror hfew,
          streamBatches_silent batchBytes _
          (herrors ▸ herror) (hlengths ▸ hfew)]

section Endpoints

variable [ArrowKernels V]

/-- No event has a cell of a denied column, and contents that agree give the
same events. -/
structure Hides (denied : TableRef → Str → Prop)
    (agree : Tables V → Tables V → Prop)
    (run : Tables V → List (StreamEvent V)) (tables : Tables V) : Prop where
  cells : ∀ e ∈ run tables, ∀ row ∈ e.rows, ¬ row.Exposes denied
  twin : ∀ tables', agree tables tables' →
    (run tables).map StreamEvent.text = (run tables').map StreamEvent.text

variable [Unicode] [FloatOps] [SqlParser]

omit [ArrowKernels V] in
def streamTarget (sources : StreamSources V) (req : StreamRequest) :
    Option (TableRef × SubQuery) :=
  let format := toLowercase req.query.format
  match Stream.parseSource format req.query.query with
  | .error _ => none
  | .ok ref =>
    if !sources.registered ref.datasource then none
    else
      match sources.tableSchema ref.datasource ref.table,
          buildSubQuery req.query.query format ref.table with
      | .ok _, .ok subQuery => some (ref, subQuery)
      | _, _ => none

def targetEvents (sources : StreamSources V) (req : StreamRequest)
    (tables : Tables V) : List (StreamEvent V) :=
  match streamTarget sources req with
  | none => []
  | some (ref, subQuery) => streamBatches sources.batchBytes req.rowsPerEvent
      ref {} (sources.sent tables ref.datasource subQuery)

omit [ArrowKernels V] in
theorem streamHandler_eq (sources : StreamSources V) (req : StreamRequest) :
    ∃ before : List (StreamEvent V), (∀ e ∈ before, e.rows = []) ∧
      ∀ tables, streamHandler sources req tables = before ++
      targetEvents sources req tables := by
  unfold streamHandler targetEvents streamTarget
  dsimp only
  cases Stream.parseSource (toLowercase req.query.format) req.query.query with
  | error failure =>
    cases failure with
    | error message =>
      exact ⟨[.error message], by simp [StreamEvent.rows], fun _ => rfl⟩
    | panic reason => exact ⟨[], by simp, fun _ => rfl⟩
  | ok ref =>
    simp only [orErrorEvent]
    cases hregistered : sources.registered ref.datasource with
    | false =>
      exact ⟨[.error (notFoundText ref.datasource)], by simp [StreamEvent.rows],
        fun _ => rfl⟩
    | true =>
      simp only [Bool.not_true, Bool.false_eq_true, if_false]
      cases sources.tableSchema ref.datasource ref.table with
      | error e =>
        exact ⟨[.error e.toText], by simp [StreamEvent.rows], fun _ => rfl⟩
      | ok schema =>
        cases buildSubQuery req.query.query
            (toLowercase req.query.format) ref.table with
        | ok subQuery =>
          exact ⟨[.metadata schema.names], by simp [StreamEvent.rows],
            fun _ => rfl⟩
        | error failure =>
          cases failure with
          | error message => exact ⟨[.metadata schema.names,
              .error message], by simp [StreamEvent.rows], fun _ => rfl⟩
          | panic reason => exact ⟨[.metadata schema.names],
              by simp [StreamEvent.rows], fun _ => rfl⟩

/-- What is sent to a stream does not depend on denied fields, outside their
own columns. -/
def StreamAgrees (engine : PolicyEngine) (user : UserContext)
    (columns : Columns)
    (sources : StreamSources V) (tables : Tables V) (ref : TableRef)
    (subQuery : SubQuery) : Prop :=
  ∀ tables', TablesAgree engine user tables tables' →
    List.Forall₂ (MessageAgrees (DeniedColumn engine user columns ref))
      (sources.sent tables ref.datasource subQuery)
        (sources.sent tables' ref.datasource subQuery)

def ResultAgrees (engine : PolicyEngine) (user : UserContext)
    (columns : Columns)
    (sources : StreamSources V) (tables : Tables V) (ref : TableRef)
    (subQuery : SubQuery) : Prop :=
  ∀ tables', TablesAgree engine user tables tables' →
    AnswerAgrees (DeniedColumn engine user columns ref)
      (sources.execute tables ref.datasource subQuery)
      (sources.execute tables' ref.datasource subQuery)

omit [ArrowKernels V] [Unicode] [FloatOps] [SqlParser] in
theorem StreamRequest.rowsPerEvent_pos (req : StreamRequest) :
    0 < req.rowsPerEvent := by
  unfold StreamRequest.rowsPerEvent
  omega

variable {sources : StreamSources V}

omit [ArrowKernels V] [Unicode] [FloatOps] [SqlParser] in
theorem taskEvent_agree {denied : TableRef → Str → Prop}
    {tables tables' : Tables V} {task : TableRef × SubQuery} (total index : Nat)
    (hagree : AnswerAgrees (denied task.1)
      (sources.execute tables task.1.datasource task.2)
      (sources.execute tables' task.1.datasource task.2))
    (hclean : ∀ batches, sources.execute tables task.1.datasource task.2 =
      .ok batches → ∀ b ∈ batches, b.rows = [] ∨ ∀ field ∈ b.schema,
      ¬ denied task.1 field.name) :
    taskEvent sources tables total index task =
        taskEvent sources tables' total index task := by
  unfold taskEvent
  generalize sources.execute tables task.1.datasource task.2 = answer
    at hagree hclean
  generalize sources.execute tables' task.1.datasource task.2 = answer'
    at hagree
  cases hagree with
  | error e => rfl
  | @ok bs bs' hbatches =>
    have hsame : bs = bs' := by
      refine ext_getElem hbatches.length_eq fun i hi hi' => ?_
      exact ((forall₂_iff_get.mp hbatches).2 i hi hi').eq
        (hclean bs rfl _ (getElem_mem hi))
    rw [hsame]

def subscriptionEvents (sources : StreamSources V) (query format : Str)
    (tables : Tables V) : List (StreamEvent V) :=
  (Except.toOption (queryResults sources query format tables)).getD []

omit [ArrowKernels V] in
theorem subscriptionEvents_eq {query format : Str}
    {tasks : List (TableRef × SubQuery)}
    (h : subscribe sources query format = .ok tasks) (tables : Tables V) :
    subscriptionEvents sources query format tables =
      tasks.mapIdx (taskEvent sources tables tasks.length) := by
  simp only [subscriptionEvents, queryResults, h]
  rfl

variable (engine : PolicyEngine) (user : UserContext) (columns : Columns)
  (sources : StreamSources V) (tables : Tables V) (req : StreamRequest)
    (query format : Str)

theorem streamHandler_hides_iff
    (hagrees : ∀ ref subQuery, streamTarget sources req = some (ref, subQuery) →
      StreamAgrees engine user columns sources tables ref subQuery) :
    Hides (DeniedColumn engine user columns) (TablesAgree engine user)
        (streamHandler sources req) tables ↔
      ∀ ref subQuery, streamTarget sources req = some (ref, subQuery) →
        ∀ row ∈ wholeEvents req.rowsPerEvent
          (firstError (sources.sent tables ref.datasource subQuery))
          (rowsBeforeError ref (sources.sent tables ref.datasource subQuery)),
          ¬ row.Exposes (DeniedColumn engine user columns) := by
  obtain ⟨before, hbefore, hrun⟩ := streamHandler_eq sources req
  have hroom : (({} : Progress V)).buffer.length < req.rowsPerEvent :=
    req.rowsPerEvent_pos
  constructor
  · intro hides ref subQuery htarget row hrow
    rw [← nil_append (rowsBeforeError ref _)] at hrow
    rw [← streamBatches_rows sources.batchBytes ref _ hroom] at hrow
    obtain ⟨e, he, hrow⟩ := mem_flatMap.mp hrow
    refine hides.cells e ?_ row hrow
    rw [hrun, targetEvents, htarget]
    exact mem_append_right _ he
  · intro hhidden
    cases htarget : streamTarget sources req with
    | none =>
      have hsame : ∀ t, streamHandler sources req t = before := by
        intro t
        rw [hrun, targetEvents, htarget]
        exact append_nil _
      constructor
      · intro e he row hrow
        rw [hsame] at he
        rw [hbefore e he] at hrow
        cases hrow
      · intro tables' _
        rw [hsame, hsame]
    | some target =>
      obtain ⟨ref, subQuery⟩ := target
      have hrows := hhidden ref subQuery htarget
      have hall : ∀ t, streamHandler sources req t = before ++
          streamBatches sources.batchBytes req.rowsPerEvent ref {}
            (sources.sent t ref.datasource subQuery) := by
        intro t
        rw [hrun, targetEvents, htarget]
      constructor
      · intro e he row hrow
        rw [hall] at he
        rcases mem_append.mp he with he | he
        · rw [hbefore e he] at hrow
          cases hrow
        refine hrows row ?_
        rw [← nil_append (rowsBeforeError ref _),
          ← streamBatches_rows sources.batchBytes ref _ hroom]
        exact mem_flatMap.mpr ⟨e, he, hrow⟩
      · intro tables' hagree
        rw [hall, hall, streamBatches_agree sources.batchBytes
          (hagrees ref subQuery htarget tables' hagree) hroom hrows]

theorem queryResults_hides_iff
    (hagrees : ∀ tasks, subscribe sources query format = .ok tasks →
      ∀ task ∈ tasks,
      ResultAgrees engine user columns sources tables task.1 task.2) :
    Hides (DeniedColumn engine user columns) (TablesAgree engine user)
        (subscriptionEvents sources query format) tables ↔
      ∀ tasks, subscribe sources query format = .ok tasks → ∀ task ∈ tasks,
        ∀ batches,
          sources.execute tables task.1.datasource task.2 = .ok batches →
          ∀ b ∈ batches, b.rows = [] ∨ ∀ field ∈ b.schema,
            ¬ DeniedColumn engine user columns task.1 field.name := by
  constructor
  · intro hides tasks htasks task htask batches hbatches b hb
    by_contra hexposed
    obtain ⟨hrows, hdenied⟩ := not_or.mp hexposed
    have hdenied : ∃ field ∈ b.schema,
        DeniedColumn engine user columns task.1 field.name := by
      simpa using hdenied
    obtain ⟨row, hrow⟩ := exists_mem_of_ne_nil _ hrows
    have hsent : (⟨task.1, b.schema, row⟩ : SentRow V) ∈ batchToRows task.1 b :=
      mem_map_of_mem hrow
    obtain ⟨i, hi, rfl⟩ := getElem_of_mem htask
    refine hides.cells (taskEvent sources tables tasks.length i tasks[i]) ?_
      ⟨tasks[i].1, b.schema, row⟩ ?_ ((exposes_batchToRows hsent).mpr hdenied)
    · rw [subscriptionEvents_eq htasks]
      exact mem_mapIdx.mpr ⟨i, hi, rfl⟩
    · simp only [taskEvent, hbatches]
      exact mem_flatMap.mpr ⟨b, hb, hsent⟩
  · intro hclean
    cases htasks : subscribe sources query format with
    | error failure =>
      have hnone : ∀ t, subscriptionEvents sources query format t = [] := by
        intro t
        simp only [subscriptionEvents, queryResults, htasks]
        rfl
      constructor
      · simp [hnone]
      · simp [hnone]
    | ok tasks =>
      constructor
      · intro e he row hrow
        rw [subscriptionEvents_eq htasks] at he
        obtain ⟨i, hi, rfl⟩ := mem_mapIdx.mp he
        have hmem := getElem_mem hi
        simp only [taskEvent] at hrow
        split at hrow
        · rename_i batches hbatches
          obtain ⟨b, hb, hrow⟩ := mem_flatMap.mp hrow
          rw [exposes_batchToRows hrow]
          rcases hclean tasks htasks _ hmem batches hbatches b hb with
            hempty | hfields
          · rw [batchToRows, hempty] at hrow
            cases hrow
          · simpa using hfields
        · cases hrow
      · intro tables' hagree
        rw [subscriptionEvents_eq htasks, subscriptionEvents_eq htasks]
        congr 1
        refine ext_getElem (by simp) fun i hi _ => ?_
        have hmem := getElem_mem (l := tasks) (by simpa using hi)
        simp only [getElem_mapIdx]
        exact taskEvent_agree _ _ (hagrees tasks htasks _ hmem tables' hagree)
          (hclean tasks htasks _ hmem)

/--
Both streaming endpoints.  If what the connectors send depends on denied
fields in their own columns at most, the policies are kept to exactly when no
row that is sent has a denied column.
-/
theorem streams_hide_denied_iff
    (hstream : ∀ ref subQuery, streamTarget sources req = some (ref, subQuery) →
      StreamAgrees engine user columns sources tables ref subQuery)
    (hresults : ∀ tasks, subscribe sources query format = .ok tasks →
      ∀ task ∈ tasks,
      ResultAgrees engine user columns sources tables task.1 task.2) :
    (Hides (DeniedColumn engine user columns) (TablesAgree engine user)
        (streamHandler sources req) tables ↔
      ∀ ref subQuery, streamTarget sources req = some (ref, subQuery) →
        ∀ row ∈ wholeEvents req.rowsPerEvent
          (firstError (sources.sent tables ref.datasource subQuery))
          (rowsBeforeError ref (sources.sent tables ref.datasource subQuery)),
          ¬ row.Exposes (DeniedColumn engine user columns)) ∧
      (Hides (DeniedColumn engine user columns) (TablesAgree engine user)
          (subscriptionEvents sources query format) tables ↔
        ∀ tasks, subscribe sources query format = .ok tasks → ∀ task ∈ tasks,
        ∀ batches,
            sources.execute tables task.1.datasource task.2 = .ok batches →
            ∀ b ∈ batches, b.rows = [] ∨ ∀ field ∈ b.schema,
              ¬ DeniedColumn engine user columns task.1 field.name) :=
  ⟨streamHandler_hides_iff engine user columns sources tables req hstream,
    queryResults_hides_iff engine user columns sources tables query format
    hresults⟩

end Endpoints

section Example

attribute [local instance] asciiUnicode integersOnly textCells

def nobodySeesSsn : PolicyEngine :=
  [{ datasource := "a", denyFields := ["ssn"] }]

def wholeTables : StreamSources Str where
  registered ds := ds = "a"
  tableSchema _ _ := .ok people.schema
  sent tables ds sq := [.ok (tables ⟨ds, sq.table⟩)]
  execute tables ds sq := .ok [tables ⟨ds, sq.table⟩]
  batchBytes _ := 0

def streamPeople : StreamRequest where
  query := { query := "SELECT * FROM a.t" }

theorem stream_shows_denied_field :
    letI := tableParser []
    nobodySeesSsn.evaluate "a" "t" ⟨[], ["viewer"]⟩ "ssn" = .deny ∧
      ((streamHandler wholeTables streamPeople fun _ => people).flatMap
        StreamEvent.rows).map (·.cells) = people.rows ∧
      ((subscriptionEvents wholeTables "SELECT * FROM a.t" "sql"
        fun _ => people).flatMap StreamEvent.rows).map (·.cells) = people.rows ∧
      people.schema.names = ["name".toList, "ssn".toList] := by decide +kernel

def namesOnly : RecordBatch Str where
  schema := [{ name := "name", dataType := .utf8, nullable := true }]
  rows := [[some "ann"], [some "bob"]]
  fits := by decide

def namesSource : StreamSources Str :=
  { wholeTables with
    sent := fun _ _ _ => [.ok namesOnly]
    execute := fun _ _ _ => .ok [namesOnly] }

theorem BatchAgrees.refl (denied : Str → Prop) (b : RecordBatch Str) :
    BatchAgrees denied b b :=
  ⟨rfl, forall₂_same.mpr fun _ _ _ _ _ _ => rfl⟩

def aboutA (ref : TableRef) (column field : Str) : Prop :=
  ref = ⟨"a", "t"⟩ ∧ column = field

private theorem namesOnly_clean (ref : TableRef) (field : Field)
    (hfield : field ∈ namesOnly.schema) :
    ¬ DeniedColumn nobodySeesSsn ⟨[], ["viewer"]⟩ aboutA ref field.name := by
  rw [mem_singleton.mp hfield]
  rintro ⟨f, ⟨rfl, rfl⟩, hdeny⟩
  exact absurd hdeny (by decide)

theorem streams_hide_denied_names :
    letI := tableParser []
    Hides (DeniedColumn nobodySeesSsn ⟨[], ["viewer"]⟩ aboutA)
        (TablesAgree nobodySeesSsn ⟨[], ["viewer"]⟩)
        (streamHandler namesSource streamPeople) (fun _ => people) ∧
      Hides (DeniedColumn nobodySeesSsn ⟨[], ["viewer"]⟩ aboutA)
        (TablesAgree nobodySeesSsn ⟨[], ["viewer"]⟩)
        (subscriptionEvents namesSource "SELECT * FROM a.t" "sql")
          (fun _ => people) ∧
      (streamHandler namesSource streamPeople fun _ => people).length = 3 := by
  let := tableParser []
  obtain ⟨hstream, hresults⟩ :=
    streams_hide_denied_iff nobodySeesSsn ⟨[], ["viewer"]⟩
    aboutA namesSource (fun _ => people)
        streamPeople "SELECT * FROM a.t" "sql" (fun _ _ _ _ _ =>
    .cons (.ok (BatchAgrees.refl _ _)) .nil) (fun _ _ _ _ _ _ =>
    .ok (.cons (BatchAgrees.refl _ _) .nil))
  refine ⟨hstream.mpr ?_, hresults.mpr ?_, by decide +kernel⟩
  · intro ref subQuery _ row hrow
    have hrow : row ∈ batchToRows ref namesOnly := by
      simpa [namesSource, wholeEvents, firstError, rowsBeforeError] using hrow
    rw [exposes_batchToRows hrow]
    rintro ⟨field, hfield, hdenied⟩
    exact namesOnly_clean ref field hfield hdenied
  · intro tasks _ task _ batches hbatches b hb
    cases hbatches
    rw [mem_singleton.mp hb]
    exact Or.inr (namesOnly_clean task.1)

end Example

end Fuse.Server
