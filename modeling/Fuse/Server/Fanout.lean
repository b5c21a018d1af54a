import Fuse.Engine.SortOrder
import Fuse.Foundation.Fanout
import Fuse.Server.Execute

/-!
# Partial failure of a fan-out

What `execute_union` returns, in terms of what its sources answer.  The
results are collected in the order of the sources whatever the schedule of the
tasks, every row is tagged with its own source, and the failed sources are
exactly the partial errors.
-/

namespace Fuse.Server

open Foundation Fuse.Core Engine List

section Tags

variable {V : Type} [ArrowKernels V]

def tagRow (ds : Str) (row : Row V) : Row V :=
  row ++ [some (ArrowKernels.ofText [] ds)]

variable {schema : Schema}

theorem rowFits_tagRow {row : Row V} (ds : Str)
    (h : rowFits schema row = true) :
    rowFits (schema ++ [datasourceField]) (tagRow ds row) = true := by
  simp only [rowFits, Bool.and_eq_true, beq_iff_eq] at h ⊢
  obtain ⟨hlength, hcells⟩ := h
  refine ⟨by simp [tagRow, hlength], ?_⟩
  rw [tagRow, zip_append hlength.symm, all_append, hcells]
  rfl

def tagBatch (ds : Str) (batch : RecordBatch V) : RecordBatch V where
  schema := batch.schema ++ [datasourceField]
  rows := batch.rows.map (tagRow ds)
  fits row hrow := by
    obtain ⟨untagged, huntagged, rfl⟩ := mem_map.mp hrow
    exact rowFits_tagRow ds (batch.fits untagged huntagged)

private theorem tryNew_tagBatch (ds : Str) (batch : RecordBatch V) :
    RecordBatch.tryNew (batch.schema ++ [datasourceField])
      (batch.schema.types ++ [.utf8]) (batch.rows.map (tagRow ds)) =
          .ok (tagBatch ds batch) := by
  have htypes : batch.schema.types ++ [DataType.utf8] =
      Schema.types (batch.schema ++ [datasourceField]) := by
    rw [Schema.types, Schema.types, map_append]
    rfl
  rw [htypes]
  exact RecordBatch.tryNew_ok (tagBatch ds batch) (by simp [tagBatch])

theorem addDatasourceColumn_eq (batches : List (RecordBatch V)) (ds : Str) :
    addDatasourceColumn batches ds = batches.map (tagBatch ds) := by
  rw [addDatasourceColumn, ← filterMap_eq_map' (f := tagBatch ds)]
  congr 1
  funext batch
  exact congrArg Except.toOption (tryNew_tagBatch ds batch)

theorem rows_addDatasourceColumn (batches : List (RecordBatch V)) (ds : Str) :
    (addDatasourceColumn batches ds).flatMap (·.rows) =
      (batches.flatMap (·.rows)).map (tagRow ds) := by
  rw [addDatasourceColumn_eq, flatMap_map, map_flatMap]
  rfl

theorem schema_addDatasourceColumn {batches : List (RecordBatch V)} {ds : Str}
    (h : ∀ b ∈ batches, b.schema = schema) :
    ∀ b ∈ addDatasourceColumn batches ds,
    b.schema = schema ++ [datasourceField] := by
  rw [addDatasourceColumn_eq]
  intro b hb
  obtain ⟨untagged, huntagged, rfl⟩ := mem_map.mp hb
  simp [tagBatch, h untagged huntagged]

theorem unionBatches_same {sets : List (List (RecordBatch V))}
    (h : ∀ set ∈ sets, ∀ b ∈ set, b.schema = schema) :
    unionBatches sets = .ok sets.flatten := by
  have hall : ∀ a ∈ sets.flatten.map (·.schema), a = schema := by
    intro a ha
    obtain ⟨b, hb, rfl⟩ := mem_map.mp ha
    obtain ⟨set, hset, hb⟩ := mem_flatten.mp hb
    exact h set hset b hb
  simp only [unionBatches, allSame_of_forall_eq hall, if_true]

end Tags

section Results

variable {V : Type} [ArrowKernels V]

/-- What the tasks give when their calls are numbered from `start`. -/
def taskResults (env : Env V) (start : Nat) (tasks : List (UnionTask V)) :
    List (TaskResult V) :=
  tasks.mapIdx fun i task => taskResult env (start + i) task

omit [ArrowKernels V] in
theorem taskResults_cons (env : Env V) (start : Nat) (task : UnionTask V)
    (tasks : List (UnionTask V)) : taskResults env start (task :: tasks) =
      taskResult env start task :: taskResults env (start + 1) tasks := by
  simp [taskResults, mapIdx_cons, Nat.add_assoc, Nat.add_comm 1]

omit [ArrowKernels V] in
theorem map_fst_taskResults (env : Env V) (start : Nat)
    (tasks : List (UnionTask V)) :
    (taskResults env start tasks).map (·.1) = tasks.map (·.datasource) := by
  induction tasks generalizing start with
  | nil => rfl
  | cons task tasks ih =>
    rw [taskResults_cons, map_cons, map_cons, ih]
    rfl

omit [ArrowKernels V] in
theorem runTask_eq (env : Env V) (task : UnionTask V) (s : ExecState V) :
    ∃ trace, runTask env task s =
      ⟨.ok (taskResult env s.calls task), { s with calls := s.calls + 1 },
        trace⟩ := by
  unfold runTask
  by_cases hchaos : (env.chaos s.calls task.datasource).isNone
  · exact ⟨[.execute task.datasource task.subQuery], by
      simp [bind, Exec.nextCall, Traced.getState, Traced.modifyState,
        Traced.emit, pure, hchaos]⟩
  · exact ⟨[], by
      simp [bind, Exec.nextCall, Traced.getState, Traced.modifyState,
        pure, hchaos]⟩

omit [ArrowKernels V] in
theorem mapM_runTask (env : Env V) (tasks : List (UnionTask V))
    (s : ExecState V) :
    ∃ trace, tasks.mapM (runTask env) s = ⟨.ok (taskResults env s.calls tasks),
        { s with calls := s.calls + tasks.length }, trace⟩ := by
  induction tasks generalizing s with
  | nil => exact ⟨[], rfl⟩
  | cons task tasks ih =>
    obtain ⟨trace, htask⟩ := runTask_eq env task s
    obtain ⟨traces, htasks⟩ := ih { s with calls := s.calls + 1 }
    refine ⟨trace ++ traces, ?_⟩
    rw [mapM_cons]
    simp only [bind, htask, htasks, pure, taskResults_cons, length_cons,
      append_nil]
    congr 2
    omega

end Results

section Union

variable {V : Type} [ArrowKernels V]

def answerRows (ds : Str) (a : Except ConnectorError (List (RecordBatch V))) :
    List (Row V) :=
  match a with
  | .ok batches => (batches.flatMap (·.rows)).map (tagRow ds)
  | .error _ => []

theorem rows_taskBatches (results : List (TaskResult V)) :
    (results.filterMap taskBatches).flatten.flatMap (·.rows) =
      results.flatMap fun r => answerRows r.1 r.2 := by
  induction results with
  | nil => rfl
  | cons r results ih =>
    obtain ⟨ds, a⟩ := r
    cases a with
    | ok batches =>
      simp [taskBatches, answerRows, ih, rows_addDatasourceColumn]
    | error e =>
      have hnone : taskBatches (V := V) (ds, .error e) = none := rfl
      rw [filterMap_cons_none hnone, ih]
      rfl

theorem collectUnion_failed {results : List (TaskResult V)}
    (hne : results ≠ []) (h : ∀ r ∈ results, ∃ e, r.2 = .error e) :
    ∃ message, collectUnion results = Fallible.fail message := by
  have hsets : results.filterMap taskBatches = [] := by
    rw [filterMap_eq_nil_iff]
    intro r hr
    obtain ⟨e, he⟩ := h r hr
    simp [taskBatches, he]
  obtain ⟨r, hr⟩ := exists_mem_of_ne_nil results hne
  obtain ⟨e, he⟩ := h r hr
  have herrors : (results.filterMap taskError).isEmpty = false := by
    rw [isEmpty_eq_false_iff]
    apply ne_nil_of_mem (a := ⟨r.1, e.toText⟩)
    exact mem_filterMap.mpr ⟨r, hr, by simp [taskError, he]⟩
  exact ⟨_, if_pos (by simp [hsets, herrors])⟩

theorem collectUnion_answered
    {answers : List (TableRef × Except ConnectorError (List (RecordBatch V)))}
    {schema : Schema}
    (hschema : ∀ a ∈ answers, ∀ batches, a.2 = .ok batches → ∀ b ∈ batches,
      b.schema = schema)
    (h : ∃ a ∈ answers, ∃ batches, a.2 = .ok batches) :
    ∃ fed, collectUnion (answers.map fun a => (a.1.datasource, a.2)) = .ok fed ∧
      (∀ b ∈ fed.batches, b.schema = schema ++ [datasourceField]) ∧
      fed.batches.flatMap (·.rows) = answers.flatMap
      (fun a => answerRows a.1.datasource a.2) ∧
      fed.partialErrors = (answers.filterMap fun a =>
        taskError (a.1.datasource, a.2)) ∧
      fed.datasources = answers.map (·.1.datasource) := by
  generalize hresults : (answers.map fun a => (a.1.datasource, a.2)) = results
  have hsame : ∀ set ∈ results.filterMap taskBatches,
      ∀ b ∈ set, b.schema = schema ++ [datasourceField] := by
    intro set hset b hb
    rw [← hresults, filterMap_map] at hset
    obtain ⟨a, ha, heq⟩ := mem_filterMap.mp hset
    simp only [Function.comp_def, taskBatches] at heq
    split at heq
    · rename_i batches hok
      cases heq
      exact schema_addDatasourceColumn (hschema a ha batches hok) b hb
    · cases heq
  have hsets : (results.filterMap taskBatches).isEmpty = false := by
    obtain ⟨a, ha, batches, hok⟩ := h
    rw [isEmpty_eq_false_iff, ← hresults, filterMap_map]
    apply ne_nil_of_mem (a := addDatasourceColumn batches a.1.datasource)
    exact mem_filterMap.mpr ⟨a, ha, by simp [taskBatches, hok]⟩
  refine ⟨⟨(results.filterMap taskBatches).flatten, results.map (·.1),
    results.filterMap taskError⟩, ?_, ?_, ?_, ?_, ?_⟩
  · unfold collectUnion
    simp only [hsets, Bool.false_and, Bool.false_eq_true, if_false,
      unionBatches_same hsame]
    rfl
  · intro b hb
    obtain ⟨set, hset, hb⟩ := mem_flatten.mp hb
    exact hsame set hset b hb
  · rw [rows_taskBatches, ← hresults, flatMap_map]
  · rw [← hresults]
    exact filterMap_map
  · rw [← hresults, map_map]
    rfl

variable [Unicode] [FloatOps] [SqlParser]

def sourceSubQuery (base : SubQuery) (r : TableRef) : SubQuery :=
  pushDown base { table := r.table, limit := some fanoutLimit }

omit [ArrowKernels V] [Unicode] [FloatOps] [SqlParser] in
theorem unionTasks_eq (registry : Registry V) (base : SubQuery)
    (refs : List TableRef) :
    unionTasks registry base refs = refs.filterMap fun r =>
      (registry.get r.datasource).map fun connector =>
        { datasource := r.datasource, connector,
          subQuery := sourceSubQuery base r } := by
  have hsub : unionSubQueries base refs = refs.map (sourceSubQuery base) := by
    simp [unionSubQueries, pushDownToSources, sourceSubQuery]
  have hzip := zip_map' (l := refs) (f := id) (g := sourceSubQuery base)
  rw [map_id] at hzip
  rw [unionTasks, hsub, hzip, filterMap_map]
  rfl

variable {refs : List TableRef}

theorem executeUnion_result (env : Env V) {query format : Str} {base : SubQuery}
    (s : ExecState V) (hbase : unionBase query format refs = .ok base) :
    (executeUnion env query format refs s).result =
    collectUnion (taskResults env s.calls
        (unionTasks s.registry base refs)) := by
  obtain ⟨trace, htasks⟩ := mapM_runTask env (unionTasks s.registry base refs) s
  simp [executeUnion, Exec.liftFallible, hbase, bind, Traced.lift,
    Exec.registry, Traced.getState, pure, htasks]

def sourceAnswers (env : Env V) (s : ExecState V) (base : SubQuery)
    (refs : List TableRef) :
    List (TableRef × Except ConnectorError (List (RecordBatch V))) :=
  refs.zip ((taskResults env s.calls (unionTasks s.registry base refs)).map
    (·.2))

omit [Unicode] [FloatOps] [SqlParser] [ArrowKernels V] in
theorem taskResults_eq_sourceAnswers (env : Env V) {s : ExecState V}
    (base : SubQuery)
    (hregistered : ∀ r ∈ refs, (s.registry.get r.datasource).isSome) :
    taskResults env s.calls (unionTasks s.registry base refs) =
        (sourceAnswers env s base refs).map (fun a => (a.1.datasource, a.2)) ∧
      (sourceAnswers env s base refs).map (·.1) = refs := by
  have hsources :
    (taskResults env s.calls (unionTasks s.registry base refs)).map (·.1) =
      refs.map (·.datasource) := by
    have htasks : (unionTasks s.registry base refs).map (·.datasource) =
        refs.map (·.datasource) := by
      rw [unionTasks_eq, map_filterMap, ← filterMap_eq_map]
      apply filterMap_congr
      intro r hr
      obtain ⟨connector, hconnector⟩ :=
        Option.isSome_iff_exists.mp (hregistered r hr)
      simp [hconnector]
    rw [← htasks, map_fst_taskResults]
  refine ⟨?_, ?_⟩
  · calc taskResults env s.calls (unionTasks s.registry base refs)
        _ = ((taskResults env s.calls (unionTasks s.registry base refs)).map
          (·.1)).zip
            ((taskResults env s.calls (unionTasks s.registry base refs)).map
                (·.2)) := by
            rw [zip_map']
            simp
        _ = (sourceAnswers env s base refs).map
            (fun a => (a.1.datasource, a.2)) := by
            rw [hsources, zip_map_left]
            rfl
  · have hlength := congrArg List.length hsources
    simp only [length_map] at hlength
    rw [sourceAnswers, map_fst_zip]
    simp [hlength]

omit [ArrowKernels V] in
theorem sourceAnswers_ne {env : Env V} {query format : Str} {base : SubQuery}
    {s : ExecState V} (hbase : unionBase query format refs = .ok base)
    (hregistered : ∀ r ∈ refs, (s.registry.get r.datasource).isSome) :
    sourceAnswers env s base refs ≠ [] := by
  intro hnil
  have hrefs := (taskResults_eq_sourceAnswers env base hregistered).2
  rw [hnil, map_nil] at hrefs
  rw [← hrefs] at hbase
  cases hbase

theorem executeUnion_answered {env : Env V} {query format : Str}
    {base : SubQuery} {s : ExecState V} {schema : Schema}
    (hbase : unionBase query format refs = .ok base)
    (hregistered : ∀ r ∈ refs, (s.registry.get r.datasource).isSome)
    (hanswers : ∀ a ∈ sourceAnswers env s base refs, ∃ batches,
      a.2 = .ok batches ∧ ∀ b ∈ batches, b.schema = schema) :
    ∃ fed, (executeUnion env query format refs s).result = .ok fed ∧
      (∀ b ∈ fed.batches, b.schema = schema ++ [datasourceField]) ∧
      fed.batches.flatMap (·.rows) = (sourceAnswers env s base refs).flatMap
        (fun a => answerRows a.1.datasource a.2) ∧
      fed.partialErrors = [] ∧ fed.datasources = refs.map (·.datasource) := by
  obtain ⟨hresults, hrefs⟩ := taskResults_eq_sourceAnswers env base hregistered
  obtain ⟨a, ha⟩ := exists_mem_of_ne_nil _ (sourceAnswers_ne hbase hregistered)
  obtain ⟨batches, hok, -⟩ := hanswers a ha
  have hschema : ∀ a ∈ sourceAnswers env s base refs, ∀ batches,
      a.2 = .ok batches → ∀ b ∈ batches, b.schema = schema := by
    intro a ha batches hok
    obtain ⟨answered, hanswered, hsame⟩ := hanswers a ha
    cases hok.symm.trans hanswered
    exact hsame
  obtain ⟨fed, hfed, hfedSchema, hrows, herrors, hsources⟩ :=
    collectUnion_answered hschema ⟨a, ha, batches, hok⟩
  refine ⟨fed, ?_, hfedSchema, hrows, ?_, ?_⟩
  · rw [executeUnion_result env s hbase, hresults, hfed]
  · rw [herrors, filterMap_eq_nil_iff]
    intro a ha
    obtain ⟨batches, hok, -⟩ := hanswers a ha
    rw [taskError, hok]
  · have hnames := congrArg (List.map (·.datasource)) hrefs
    rw [map_map] at hnames
    exact hsources.trans hnames

/--
Whatever the schedule of the tasks, the fan-out fails exactly when every
source did.  Otherwise its rows are those of the sources that answered, in the
order of the sources and tagged, and the partial errors are the others.
-/
theorem executeUnion_accounts_for_failures (env : Env V) {query format : Str}
    {refs : List TableRef} {base : SubQuery} {s : ExecState V} {schema : Schema}
    (hbase : unionBase query format refs = .ok base)
    (hregistered : ∀ r ∈ refs, (s.registry.get r.datasource).isSome)
    (hschema : ∀ a ∈ sourceAnswers env s base refs, ∀ batches,
      a.2 = .ok batches → ∀ b ∈ batches,
      b.schema = schema) {permits : Nat} {p : Fanout.Pool (TaskResult V)}
    (hreachable :
      Fanout.Reachable (fun i r =>
        (taskResults env s.calls (unionTasks s.registry base refs))[i]? =
      some r) refs.length permits p) (hfinished : Fanout.Finished p) :
    (executeUnion env query format refs s).result = collectUnion p.collected ∧
      (sourceAnswers env s base refs).map (·.1) = refs ∧
      ((∃ message, collectUnion p.collected = Fallible.fail message) ↔
        ∀ a ∈ sourceAnswers env s base refs, ∃ e, a.2 = .error e) ∧
      ((∃ a ∈ sourceAnswers env s base refs, ∃ batches, a.2 = .ok batches) →
        ∃ fed, collectUnion p.collected = .ok fed ∧
        fed.batches.flatMap (·.rows) = (sourceAnswers env s base
              refs).flatMap (fun a => answerRows a.1.datasource a.2) ∧
          fed.partialErrors = (sourceAnswers env s base refs).filterMap fun a =>
              taskError (a.1.datasource, a.2)) := by
  obtain ⟨hresults, hrefs⟩ := taskResults_eq_sourceAnswers env base hregistered
  have hlength : (taskResults env s.calls
      (unionTasks s.registry base refs)).length = refs.length := by
    rw [hresults, length_map, ← length_map, hrefs]
  rw [← hlength] at hreachable
  rw [executeUnion_result env s hbase, Fanout.collected_eq hreachable hfinished,
    hresults]
  refine ⟨rfl, hrefs, ⟨?_, ?_⟩, ?_⟩
  · rintro ⟨message, hfail⟩ a ha
    cases hanswer : a.2 with
    | error e => exact ⟨e, rfl⟩
    | ok batches =>
      obtain ⟨fed, hfed, -⟩ :=
        collectUnion_answered hschema ⟨a, ha, batches, hanswer⟩
      rw [hfed] at hfail
      cases hfail
  · intro hfailed
    exact collectUnion_failed
      (by simpa using sourceAnswers_ne hbase hregistered)
        (forall_mem_map.mpr hfailed)
  · intro h
    obtain ⟨fed, hfed, -, hrows, herrors, -⟩ := collectUnion_answered hschema h
    exact ⟨fed, hfed, hrows, herrors⟩

omit [Unicode] [FloatOps] [SqlParser] [ArrowKernels V] in
/-- No schedule gets stuck: it can always be carried on until all results are
collected. -/
theorem fanout_can_finish (results : List (TaskResult V)) {permits : Nat}
    (hpermits : 0 < permits) {p : Fanout.Pool (TaskResult V)}
    (hreachable : Fanout.Reachable (fun i r =>
      results[i]? = some r) results.length permits p) :
    ∃ q, Fanout.Reachable (fun i r => results[i]? = some r)
      results.length permits q ∧ Fanout.Finished q ∧ q.collected = results := by
  have houtcome : ∀ i, i < results.length → ∃ r, results[i]? = some r :=
    fun i hi => ⟨_, getElem?_eq_getElem hi⟩
  obtain ⟨q, hpq, hfinished⟩ :=
    Fanout.exists_finished hpermits houtcome p hreachable
  have hq := hreachable.trans hpq
  exact ⟨q, hq, hfinished, Fanout.collected_eq hq hfinished⟩

end Union

section Example

attribute [local instance] asciiUnicode integersOnly textCells

def oneCell (name value : Str) : RecordBatch Str where
  schema := [{ name, dataType := .utf8, nullable := true }]
  rows := [[some value]]
  fits := by simp [rowFits]

def halfDown : Env Str :=
  { Env.quiet Str with
    execute := fun _ _ _ => .ok [oneCell "n" "1"]
    late := fun _ ds _ => ds = "down" }

def bothRegistered : ExecState Str :=
  { registry := [("up", .external), ("down", .external)] }

def upAndDown : List TableRef := [⟨"up", "t"⟩, ⟨"down", "t"⟩]

theorem executeUnion_accounts_for_late_source :
    letI := tableParser []
    ∃ fed, (executeUnion halfDown "SELECT n" "sql" upAndDown
      bothRegistered).result = .ok fed ∧
      fed.batches.flatMap (·.rows) = [[some "1".toList, some "up".toList]] ∧
      fed.partialErrors =
        [⟨"down", "query execution failed: connector 'down' timed out"⟩] := by
  let := tableParser []
  have hbase : unionBase "SELECT n" "sql" upAndDown = .ok { table := "t" } :=
    rfl
  have hregistered : ∀ r ∈ upAndDown,
    (bothRegistered.registry.get r.datasource).isSome := by decide
  have hschema : ∀ a ∈ sourceAnswers halfDown bothRegistered
      { table := "t" } upAndDown, ∀ batches, a.2 = .ok batches →
      ∀ b ∈ batches, b.schema = (oneCell "n" "1").schema := by
    intro a ha batches hok
    rcases mem_pair.mp ha with rfl | rfl
    · cases hok
      simp
    · cases hok
  obtain ⟨p, hp, hfinished, -⟩ := fanout_can_finish (taskResults halfDown 0
    (unionTasks bothRegistered.registry { table := "t" } upAndDown))
    Nat.one_pos (p := Fanout.initial _ 1) .refl
  obtain ⟨hresult, -, -, hrows⟩ := executeUnion_accounts_for_failures
    halfDown hbase hregistered hschema hp hfinished
  obtain ⟨fed, hfed, hrows, herrors⟩ := hrows ⟨_, mem_cons_self, _, rfl⟩
  exact ⟨fed, hresult.trans hfed, hrows, herrors⟩

@[reducible] def dottedUnicode : Unicode := unicodeLowering (·.flatMap fun c =>
    if c = 'İ' then ['i', '\u0307'] else [c.toLower]) <| by
    intro s h
    rw [← flatMap_pure_eq_map]
    apply flatMap_congr
    intro c hc
    have hne : c ≠ 'İ' := by
      rintro rfl
      exact absurd (h _ hc) (by decide)
    rw [if_neg hne]
    rfl

/-- Without sources the fan-out panics, and so it does on a text whose lower
case has other offsets. -/
theorem executeUnion_panics :
    letI := tableParser []
    (executeUnion (Env.quiet Str) "SELECT n" "sql" []
        bothRegistered).result = Fallible.panic .indexOutOfBounds ∧
      letI := dottedUnicode
      (executeUnion (Env.quiet
        Str) "source = up.t, down.t | stats count(İİ) by x" "ppl" upAndDown
        bothRegistered).result = Fallible.panic .notCharBoundary :=
  ⟨rfl, rfl⟩

end Example

end Fuse.Server
