import Fuse.Server.ColumnSecurity
import Fuse.Server.Distinct
import Fuse.Server.StatedJoin

/-!
# What a write statement stores

`CREATE MATERIALIZED VIEW`, `REFRESH MATERIALIZED VIEW`, `CREATE TABLE … AS`
and `INSERT INTO … SELECT` run their `SELECT` on its first source alone and
store what it returns.  The query endpoint runs the same text on all its
sources and carries out the clauses once more.  The rows are compared for
texts over one source with any clauses, and over several with `ORDER BY`.
-/

namespace Fuse.Server

open Foundation Fuse.Core Engine List

/-! ## Rows without their tags -/

def isTag (name : Str) : Bool :=
  name = "_datasource" || name = "probe__datasource"

section Tags

variable {V : Type}

def untagRow (schema : Schema) (row : Row V) : Row V :=
  ((schema.zip row).filter fun cell => !isTag cell.1.name).map (·.2)

def plainRows (b : RecordBatch V) : List (Row V) :=
  b.rows.map (untagRow b.schema)

def Schema.Untagged (schema : Schema) : Prop :=
  ∀ f ∈ schema, isTag f.name = false

variable {row : Row V} {schema : Schema} {batches : List (RecordBatch V)}

theorem length_of_same (h : ∀ b ∈ batches, b.schema = schema)
    (hrow : row ∈ batches.flatMap (·.rows)) : row.length = schema.length := by
  obtain ⟨b, hb, hrow⟩ := mem_flatMap.mp hrow
  rw [RecordBatch.length_of_mem hrow, h b hb]

theorem length_untagRow (h : row.length = schema.length) :
    (untagRow schema row).length = (schema.filter fun f =>
      !isTag f.name).length := by
  have hfst : (schema.zip row).map (·.1) = schema :=
    map_fst_zip (Nat.le_of_eq h.symm)
  conv_rhs => rw [← hfst, filter_map, length_map]
  rw [untagRow, length_map]
  rfl

theorem untagRow_append {schema more : Schema} {row cells : Row V}
    (h : row.length = schema.length) :
    untagRow (schema ++ more) (row ++ cells) = untagRow schema row ++
    untagRow more cells := by
  rw [untagRow, zip_append h.symm, filter_append, map_append]
  rfl

theorem untagRow_of_untagged (huntagged : Schema.Untagged schema)
    (h : row.length = schema.length) : untagRow schema row = row := by
  have hall : ∀ cell ∈ schema.zip row, (!isTag cell.1.name) = true := by
    intro cell hcell
    rw [huntagged _ (of_mem_zip hcell).1]
    rfl
  rw [untagRow, filter_eq_self.mpr hall]
  exact map_snd_zip (Nat.le_of_eq h)

theorem plainRows_uniform (h : ∀ b ∈ batches, b.schema = schema) :
    batches.flatMap plainRows = (batches.flatMap (·.rows)).map
    (untagRow schema) := by
  rw [map_flatMap]
  exact flatMap_congr fun b hb => by rw [plainRows, h b hb]

theorem plainRows_of_untagged (huntagged : Schema.Untagged schema)
    (h : ∀ b ∈ batches, b.schema = schema) :
    batches.flatMap plainRows = batches.flatMap (·.rows) := by
  rw [plainRows_uniform h]
  exact (map_congr_left fun row hrow =>
    untagRow_of_untagged huntagged (length_of_same h hrow)).trans (map_id _)

theorem perm_plainRows_wider {page : List (RecordBatch V)} {wide : Schema}
    (h : ∀ b ∈ batches, b.schema = schema) (hpage : ∀ b ∈ page, b.schema = wide)
    (hwide : schema.length < (wide.filter fun f => !isTag f.name).length) :
    (batches.flatMap (·.rows)).Perm (page.flatMap plainRows) ↔
      batches.flatMap (·.rows) = [] ∧ page.flatMap (·.rows) = [] := by
  rw [plainRows_uniform hpage]
  constructor
  · intro hperm
    have hnone : page.flatMap (·.rows) = [] := by
      refine eq_nil_iff_forall_not_mem.mpr fun row hrow => ?_
      have hstored := length_of_same h
        (hperm.mem_iff.mpr (mem_map_of_mem hrow))
      rw [length_untagRow (length_of_same hpage hrow)] at hstored
      omega
    rw [hnone, map_nil] at hperm
    exact ⟨hperm.eq_nil, hnone⟩
  · rintro ⟨hstored, hnone⟩
    rw [hstored, hnone, map_nil]

theorem plainRows_tagged [ArrowKernels V] (huntagged : Schema.Untagged schema)
    (h : ∀ b ∈ batches, b.schema = schema ++ [datasourceField])
    {refs : List TableRef} {rows : TableRef → List (Row V)}
    (hrows : batches.flatMap (·.rows) = refs.flatMap fun r =>
      (rows r).map (tagRow r.datasource)) :
    batches.flatMap plainRows = refs.flatMap rows := by
  rw [plainRows_uniform h, hrows, map_flatMap]
  apply flatMap_congr
  intro r hr
  rw [map_map]
  refine (map_congr_left fun row hrow => ?_).trans (map_id _)
  have htagged :=
    length_of_same h (hrows ▸ mem_flatMap.mpr ⟨r, hr, mem_map_of_mem hrow⟩)
  have hwidth : row.length = schema.length := by simpa [tagRow] using htagged
  rw [Function.comp_apply, tagRow, untagRow_append hwidth,
    untagRow_of_untagged huntagged hwidth]
  exact append_nil row

theorem probeName_untagged (build : Schema) {name : Str}
    (h : isTag name = false) : isTag (probeName build name) = false := by
  unfold probeName
  split
  · simp only [isTag, Bool.or_eq_false_iff, decide_eq_false_iff_not] at h ⊢
    refine ⟨fun heq => ?_, fun heq => h.1 ?_⟩
    · cases List.cons.inj heq with
      | intro hhead _ => exact absurd hhead (by decide)
    · exact append_cancel_left
        (heq.trans (by decide : ("probe__datasource".toList : Str) =
          "probe_".toList ++ "_datasource".toList))
  · exact h

theorem length_joinedSchema {build probe : Schema} {key : Str} {j : Nat}
    (hbuild : Schema.Untagged build) (hprobe : Schema.Untagged probe)
    (hj : probe.indexOf key = some j) (hkey : key ≠ "_datasource")
    (hunique : probe.filter (·.name ≠ key) = probe.eraseIdx j) :
    ((joinedSchema build probe key).filter fun f => !isTag f.name).length =
      build.length + probe.length - 1 := by
  have hself : ∀ {schema : Schema}, Schema.Untagged schema →
      schema.filter (fun f => !isTag f.name) = schema := by
    intro schema h
    refine filter_eq_self.mpr fun f hf => ?_
    rw [h f hf]
    rfl
  have htag : probeName (build ++ [datasourceField]) datasourceField.name =
      "probe__datasource" := by
    rw [probeName, if_pos (by simp [Schema.names])]
    rfl
  have hbound := lt_of_indexOf hj
  have hkept : (probe ++ [datasourceField]).filter (·.name ≠ key) =
      probe.eraseIdx j ++ [datasourceField] := by
    have htagKept : [datasourceField].filter (·.name ≠ key) =
        [datasourceField] :=
      filter_eq_self.mpr fun f hf => by
        rw [mem_singleton.mp hf]
        exact decide_eq_true hkey.symm
    rw [filter_append, hunique, htagKept]
  have hshown : Schema.Untagged ((probe.eraseIdx j).map fun f : Field =>
      ({ name := probeName (build ++ [datasourceField]) f.name,
         dataType := f.dataType, nullable := true } : Field)) :=
    forall_mem_map.mpr fun f hf =>
      probeName_untagged _ (hprobe f (mem_of_mem_eraseIdx hf))
  rw [joinedSchema, mergeSchemas_inner, hkept, map_append, filter_append,
    filter_append,
    filter_append, hself hbuild, hself hshown, map_singleton, htag,
    length_append,
    length_append, length_append, length_map, length_eraseIdx_of_lt hbound]
  change build.length + 0 + (probe.length - 1 + 0) = _
  omega

end Tags

section Steps

variable {V : Type} [ArrowKernels V] [Unicode] [FloatOps]

/-! ## The steps after the fetch -/

def havingRow (having : Option HavingCondition) (schema : Schema)
    (row : Row V) : Bool :=
  having.all fun h =>
    (schema.findIdx? fun f => toLowercase f.name = toLowercase h.column).any
      fun i => havingKeeps h row[i]?.join

/-- The cells by which `DISTINCT` tells rows apart: of columns of one name
those of the first. -/
def distinctCells (schema : Schema) (row : Row V) : Row V :=
  RecordBatch.keyOf ((answerColumns schema).map (firstNamed schema)) row

/-- No step after the fetch leaves out a row. -/
structure AllKept (clauses : PlanClauses) (having : Option HavingCondition)
    (schema : Schema) (rows : List (Row V)) : Prop where
  having : ∀ row ∈ rows, havingRow having schema row = true
  distinct : clauses.isDistinct = true → (rows.map (distinctCells schema)).Nodup
  offset : effectiveOffset clauses {} = 0 ∨ rows = []
  limit : ∀ n ∈ clauses.limit, rows.length ≤ n

variable {schema : Schema} {batches : List (RecordBatch V)}
  {clauses : PlanClauses}

theorem having_rows (having : Option HavingCondition)
    (h : ∀ b ∈ batches, b.schema = schema) :
    (∀ b ∈ having.elim batches (applyHavingFilter · batches),
      b.schema = schema) ∧
      (having.elim batches (applyHavingFilter · batches)).flatMap
      RecordBatch.rows = (batches.flatMap RecordBatch.rows).filter
        (havingRow having schema) := by
  cases having with
  | none => exact ⟨h, (filter_eq_self.mpr fun _ _ => rfl).symm⟩
  | some condition =>
    have hsame : applyHavingFilter condition batches = batches.filterMap
        fun batch =>
        (schema.findIdx? fun f =>
          toLowercase f.name = toLowercase condition.column).map fun i =>
            batch.filterRows fun row => havingKeeps condition row[i]?.join :=
      filterMap_congr fun b hb => by rw [h b hb]
    rw [Option.elim_some, hsame]
    unfold havingRow
    simp only [Option.all_some]
    cases schema.findIdx? fun f => toLowercase f.name =
        toLowercase condition.column with
    | none => simp
    | some i =>
      simp only [Option.map_some, filterMap_eq_map', forall_mem_map,
        flatMap_map, filter_flatMap, Option.any_some]
      exact ⟨h, rfl⟩

variable [LinearOrder V] (hsort : LexsortSorts V) (hdebug : DebugFaithful V)
  (hcolumns : answerColumns schema ≠ []) (h : ∀ b ∈ batches, b.schema = schema)

include hsort hdebug hcolumns h

omit [Unicode] [FloatOps] in
theorem sortedWindow_kept (clauses : PlanClauses) :
    ∃ (window : List (RecordBatch V)) (kept : List (Row V)),
      sortedWindow clauses {} batches = .ok window ∧
      (∀ b ∈ window, b.schema = schema) ∧
      window.flatMap (·.rows) =
        Windows.limited clauses.limit (kept.drop (effectiveOffset clauses {})) ∧
      kept.Subperm (batches.flatMap (·.rows)) ∧
      (kept.Perm (batches.flatMap (·.rows)) ↔ (clauses.isDistinct = true →
        ((batches.flatMap (·.rows)).map (distinctCells schema)).Nodup)) := by
  cases hdistinct : clauses.isDistinct with
  | false =>
    have hne : schema ≠ [] := by
      rintro rfl
      exact hcolumns rfl
    obtain ⟨sorted, hsorted, hsschema, hperm, -⟩ :=
      applyOrderBy_sorted hsort h clauses.orderBy
    obtain ⟨window, hwindow, hwschema, hrows⟩ := takeWindow_same hne hsschema
      (effectiveOffset clauses {}) (effectivePageSize clauses {})
    have hlast : applyDistinct false sorted = .ok sorted := by
      cases sorted <;> rfl
    refine ⟨window, _, ?_, hwschema, hrows, hperm.subperm,
      iff_of_true hperm nofun⟩
    simp [sortedWindow, hsorted, hdistinct, hlast, bind, Except.bind, hwindow]
  | true =>
    obtain ⟨window, kept, hwindow, hwschema, hrows, hsubset, hcovers,
        hstrict⟩ :=
      sortedWindow_strict hsort hdebug hcolumns h hdistinct {}
    have hkept : (kept.map (distinctCells schema)).Nodup :=
      pairwise_map.mpr (hstrict.imp fun hlt heq =>
        hlt.ne (columnsKey_eq_iff.mpr heq))
    have hnodup := hkept.of_map
    refine ⟨window, kept, hwindow, hwschema, hrows, hnodup.subperm hsubset, ?_⟩
    constructor
    · intro hperm _
      exact (hperm.map _).nodup_iff.mp hkept
    · intro hdiffer
      refine (perm_ext_iff_of_nodup hnodup (hdiffer rfl).of_map).mpr fun row =>
        ⟨(hsubset ·), ?_⟩
      intro hrow
      obtain ⟨r, hr, heq⟩ := hcovers row hrow
      -- a row of the answer with the same cells is the same row
      exact inj_on_of_nodup_map (hdiffer rfl) (hsubset hr) hrow heq ▸ hr

theorem sortedWindow_having_iff (having : Option HavingCondition)
    (clauses : PlanClauses) :
    ∃ page : List (RecordBatch V),
      sortedWindow clauses {}
      (having.elim batches (applyHavingFilter · batches)) = .ok page ∧
      (∀ b ∈ page, b.schema = schema) ∧
      ((page.flatMap (·.rows)).Perm (batches.flatMap (·.rows)) ↔
        AllKept clauses having schema (batches.flatMap (·.rows))) := by
  obtain ⟨hschema, hrows⟩ := having_rows having h
  obtain ⟨page, kept, hpage, hpschema, hprows, hsubperm, hkept⟩ :=
    sortedWindow_kept hsort hdebug hcolumns hschema clauses
  rw [hrows] at hsubperm hkept
  refine ⟨page, hpage, hpschema, ?_⟩
  rw [hprows, Windows.limited_drop_perm_iff
    (hsubperm.trans filter_sublist.subperm)]
  constructor
  · rintro ⟨hperm, hoffset, hlimit⟩
    have hall : (batches.flatMap (·.rows)).filter (havingRow having schema) =
        batches.flatMap (·.rows) :=
      filter_sublist.eq_of_length_le (hperm.length_eq ▸ hsubperm.length_le)
    rw [hall] at hkept
    exact ⟨filter_eq_self.mp hall, hkept.mp hperm, hoffset, hlimit⟩
  · rintro ⟨hhaving, hdistinct, hoffset, hlimit⟩
    rw [filter_eq_self.mpr hhaving] at hkept
    exact ⟨hkept.mpr hdistinct, hoffset, hlimit⟩

end Steps

section Statements

variable {V : Type}

theorem callConnector_external (env : Env V) (ds : Str) (sq : SubQuery)
    (s : ExecState V) :
    callConnector env ds .external sq s =
      ⟨.ok (env.execute s.calls ds sq), { s with calls := s.calls + 1 },
        [.execute ds sq]⟩ := by
  unfold callConnector
  rfl

theorem writeTo_external (env : Env V) {dest : TableRef} {s : ExecState V}
    (hdest : s.registry.get dest.datasource = some .external)
    (batches : List (RecordBatch V)) :
    writeTo env dest batches s =
    ⟨.ok (some (env.write s.calls dest.datasource dest.table batches)),
        { s with calls := s.calls + 1 },
        [.write dest.datasource dest.table]⟩ := by
  simp only [writeTo, bind, Exec.registry, Traced.getState, pure, hdest]
  rfl

variable [ArrowKernels V]

/-! ## The four statements -/

variable [Unicode] [FloatOps] [SqlParser]

def writtenReply (status : Nat) (message : Str)
    (batches : List (RecordBatch V)) : Except ConnectorError Nat → Reply
  | .ok rows => .written status message rows (totalRows batches)
  | .error e => errorJson (connectorErrorStatus e.toText) e.toText

structure Stores (env : Env V) (s : ExecState V) (text : Str)
    (batches : List (RecordBatch V)) : Prop where
  create : ∀ (app : AppState V) (name : Str), app.exec = s →
    ((createMaterializedView env name text app).state.views.lookup name).map
      (·.batches) = some batches
  refresh : ∀ (app : AppState V) (name : Str) (view : View V),
    app.exec = s → app.views.lookup name = some view → view.query = text →
    ((refreshMaterializedView env app.views name app).state.views.lookup
      name).map (·.batches) = some batches
  table : ∀ dest : TableRef, s.registry.get dest.datasource = some .external →
    (createTable env ⟨dest, text⟩ s).result =
      .ok (writtenReply 201 ("table " ++ tableName dest ++ " created") batches
        (env.write (s.calls + 1) dest.datasource dest.table batches))
  insert : ∀ dest : TableRef, s.registry.get dest.datasource = some .external →
    (insertInto env ⟨dest, text⟩ s).result =
      .ok (writtenReply 200 ("inserted into " ++ tableName dest) batches
        (env.write (s.calls + 1) dest.datasource dest.table batches))

variable {env : Env V} {s : ExecState V} {text : Str} {first : TableRef}
  {rest : List TableRef} {sq : SubQuery} {batches : List (RecordBatch V)}

omit [FloatOps] [SqlParser] in
theorem firstSource_eq (hsources : parseSqlSources text = .ok (first :: rest)) :
    firstSource text = .ok (some first) := by
  simp only [firstSource, hsources, Fallible.toOption]
  rfl

section Answered

variable (hsources : parseSqlSources text = .ok (first :: rest))
  (hbuilt : buildSubQuery text "sql" first.table = .ok sq)
  (hregistered : s.registry.get first.datasource = some .external)
  (hanswer : env.execute s.calls first.datasource sq = .ok batches)

include hsources hbuilt hregistered hanswer

omit [ArrowKernels V] in
theorem viewBatches_answered :
    viewBatches env text s = ⟨.ok (.ok batches),
      { s with calls := s.calls + 1 }, [.execute first.datasource sq]⟩ := by
  simp only [viewBatches, Exec.liftFallible, firstSource_eq hsources,
    Traced.lift, bind, Exec.registry, Traced.getState, pure, hregistered,
    hbuilt, Fallible.catchError, callConnector_external, hanswer]
  rfl

omit [ArrowKernels V] in
theorem writeSelect_answered {dest : TableRef}
    (hdest : s.registry.get dest.datasource = some .external) (status : Nat)
    (message : Str) :
    (writeSelect env ⟨dest, text⟩ status message s).result =
      .ok (writtenReply status message batches
        (env.write (s.calls + 1) dest.datasource dest.table batches)) := by
  simp only [writeSelect, Exec.liftFallible, firstSource_eq hsources,
    Traced.lift, bind, Exec.registry, Traced.getState, pure, hregistered,
    hbuilt, Fallible.catchError, callConnector_external, hanswer, writeAnswer]
  rw [writeTo_external env (s := { s with calls := s.calls + 1 }) hdest]
  cases env.write (s.calls + 1) dest.datasource dest.table batches with
  | ok rows | error e => rfl

omit [ArrowKernels V] in
theorem stores_of_answer : Stores env s text batches where
  create app name hexec := by
    subst hexec
    simp [createMaterializedView, setView, Traced.modifyState, bind,
      Handler.runExec, Traced.zoom,
      viewBatches_answered hsources hbuilt hregistered hanswer, View.refresh,
      bindKey, pure]
  refresh app name view hexec hview hquery := by
    subst hexec hquery
    simp [refreshMaterializedView, hview, setView, Traced.modifyState, bind,
      Handler.runExec,
      Traced.zoom, viewBatches_answered hsources hbuilt hregistered hanswer,
      View.refresh, bindKey, pure]
  table dest hdest :=
    writeSelect_answered hsources hbuilt hregistered hanswer hdest 201 _
  insert dest hdest :=
    writeSelect_answered hsources hbuilt hregistered hanswer hdest 200 _

end Answered

/-! ## The query endpoint -/

/-- What the endpoint reads from the text for the steps after the fetch. -/
structure StepsOf (text : Str) (clauses : PlanClauses) (groupBy : List Str)
    (having : Option HavingCondition) : Prop where
  clauses : parseClauses text = .ok clauses
  groupBy : parseGroupBy text = .ok groupBy
  having : parseHaving text = .ok having

structure OnlyOrdered (clauses : PlanClauses) (groupBy : List Str)
    (having : Option HavingCondition) : Prop where
  groupBy : groupBy = []
  having : having = none
  distinct : clauses.isDistinct = false
  limit : clauses.limit = none
  offset : clauses.offset = 0

omit [SqlParser] in
theorem OnlyOrdered.allKept {clauses : PlanClauses} {groupBy : List Str}
    {having : Option HavingCondition} (h : OnlyOrdered clauses groupBy having)
    (schema : Schema) (rows : List (Row V)) :
    AllKept clauses having schema rows where
  having _ _ := by
    rw [h.having]
    rfl
  distinct hdistinct := by
    rw [h.distinct] at hdistinct
    cases hdistinct
  offset := .inl (by rw [effectiveOffset, h.offset]; rfl)
  limit n hn := by
    rw [h.limit] at hn
    cases hn

inductive SelectKind where
  | single
  | union
  | join (keyA keyB : Str) (i j : Nat)

def sameDisplay (v w : V) : Bool :=
  decide (ArrowKernels.display v = ArrowKernels.display w)

def fetchedTable (schema : Str → SubQuery → Schema)
    (rows : Str → SubQuery → List (Row V))
    (r : TableRef) (key : Nat) : JoinTable V where
  fetched := (rows r.datasource (joinSubQuery r)).map (tagRow r.datasource)
  rest := []
  key
  width := (schema r.datasource (joinSubQuery r)).length + 1
  outer := false

def SelectKind.Of (text : Str) (schema : Str → SubQuery → Schema)
    (rows : Str → SubQuery → List (Row V)) (first : TableRef)
    (rest : List TableRef) (sq : SubQuery) : SelectKind → Prop
  | .single => rest = []
  | .union =>
    rest ≠ [] ∧ isUnionQuery text = true ∧
      (∀ r ∈ first :: rest, schema r.datasource (sourceSubQuery sq r) =
        schema first.datasource sq) ∧
      -- the first source has the limit of the fan-out as its only change
      rows first.datasource (sourceSubQuery sq first) =
        (rows first.datasource sq).take fanoutLimit
  | .join keyA keyB i j =>
    ∃ second, rest = [second] ∧ isUnionQuery text = false ∧
      joinKeys text (schema first.datasource (joinSubQuery first))
        (schema second.datasource (joinSubQuery second)) =
          .ok (some (keyA, keyB)) ∧
      keyA ≠ "_datasource" ∧ keyB ≠ "_datasource" ∧
      (schema first.datasource (joinSubQuery first)).indexOf keyA = some i ∧
      (schema second.datasource (joinSubQuery second)).indexOf keyB = some j ∧
      (schema first.datasource (joinSubQuery first)).filter (·.name ≠ keyA) =
      (schema first.datasource (joinSubQuery first)).eraseIdx i ∧
      (schema second.datasource (joinSubQuery second)).filter (·.name ≠ keyB) =
      (schema second.datasource (joinSubQuery second)).eraseIdx j ∧
      -- the text takes columns of the first table; the second has some more
      (schema first.datasource sq).length ≤
        (schema first.datasource (joinSubQuery first)).length ∧
      2 ≤ (schema second.datasource (joinSubQuery second)).length

/-- The joined rows inside the window that is read from the text. -/
def joinedRows (text : Str) (schema : Str → SubQuery → Schema)
    (rows : Str → SubQuery → List (Row V)) (keyA keyB : Str) (i j : Nat)
    (first second : TableRef) : List (Row V) :=
  let a := fetchedTable schema rows first i
  let b := fetchedTable schema rows second j
  (fetchedRows sameDisplay (joinOrder a b).1 (joinOrder a b).2).filter
    (windowKeeps text (orderedSchema a b
      (schema first.datasource (joinSubQuery first))
      (schema second.datasource (joinSubQuery second)) keyA keyB))

/--
Where the first source alone gives what all sources and the steps after the
fetch give: the steps leave out no row of a single source, the other sources of
a union have just the rows of the first beyond the limit of the fan-out, and a
join has no row and its first source none either.
-/
def SelectKind.FirstSuffices (text : Str) (clauses : PlanClauses)
    (having : Option HavingCondition) (schema : Str → SubQuery → Schema)
    (rows : Str → SubQuery → List (Row V)) (first : TableRef)
    (rest : List TableRef) (sq : SubQuery) : SelectKind → Prop
  | .single => AllKept clauses having (schema first.datasource sq)
                 (rows first.datasource sq)
  | .union => ((rows first.datasource sq).drop fanoutLimit).Perm
      (rest.flatMap fun r => rows r.datasource (sourceSubQuery sq r))
  | .join keyA keyB i j => rows first.datasource sq = [] ∧
      ∀ r ∈ rest, joinedRows text schema rows keyA keyB i j first r = []

omit [ArrowKernels V] [Unicode] [FloatOps] [SqlParser] in
theorem answerColumns_ne_nil {schema : Schema} {f : Field} (hf : f ∈ schema)
    (h : isTag f.name = false) : answerColumns schema ≠ [] := by
  intro hnil
  have hnames := answerNames_eq schema
  rw [hnil, map_nil, filter_eq_nil_iff] at hnames
  have hname : f.name ≠ datasourceField.name := by
    intro heq
    rw [heq] at h
    exact absurd h (by decide)
  exact hnames f.name (mem_map_of_mem hf) (decide_eq_true hname)

variable [LinearOrder V] {clauses : PlanClauses} {groupBy : List Str}
  {having : Option HavingCondition}

theorem windowOfText_kept_iff (hsort : LexsortSorts V)
    (hdebug : DebugFaithful V)
    {fed : FederatedResult V} (hfed : (runText env text s).result = .ok fed)
    (hsteps : StepsOf text clauses groupBy having)
    (honce : groupBy = [] ∨ fed.datasources.length ≤ 1) {schema : Schema}
    (hcolumns : answerColumns schema ≠ [])
    (hschema : ∀ b ∈ fed.batches, b.schema = schema) :
    ∃ page, (windowOfText env text s).result = .ok page ∧
    (∀ b ∈ page, b.schema = schema) ∧
      ((page.flatMap (·.rows)).Perm (fed.batches.flatMap (·.rows)) ↔
        AllKept clauses having schema (fed.batches.flatMap (·.rows))) := by
  obtain ⟨page, hpage, hpschema, hiff⟩ :=
    sortedWindow_having_iff hsort hdebug hcolumns hschema having clauses
  refine ⟨page, ?_, hpschema, hiff⟩
  have hmerged : mergedResult env text fed =
      .ok (having.elim fed.batches (applyHavingFilter · fed.batches)) := by
    have hgroups : (!groupBy.isEmpty && decide (1 < fed.datasources.length)) =
        false := by
      rcases honce with rfl | hone
      · rfl
      · rw [decide_eq_false (by omega), Bool.and_false]
    simp only [mergedResult, hsteps.groupBy, hsteps.having, hgroups, bind,
      Except.bind]
    cases having <;> rfl
  unfold windowOfText
  cases hrun : runText env text s with
  | mk result state trace =>
    rw [hrun] at hfed
    cases hfed
    unfold sortedWindow at hpage
    simp only [bind, hrun, Exec.liftFallible, Traced.lift, hsteps.clauses,
      shapeResult, hmerged, Except.bind] at hpage ⊢
    cases hsorted : applyOrderBy clauses.orderBy
        (having.elim fed.batches (applyHavingFilter · fed.batches)) with
    | error e => simp [hsorted] at hpage
    | ok sorted =>
      simp only [hsorted] at hpage ⊢
      cases hdistinct : applyDistinct clauses.isDistinct sorted with
      | error e => simp [hdistinct] at hpage
      | ok distinct =>
        simp only [hdistinct] at hpage ⊢
        exact hpage

variable {schema : Str → SubQuery → Schema}
  {rows : Str → SubQuery → List (Row V)}

omit [LinearOrder V] in
theorem single_returned (henv : env.Replies (fun _ => True) schema rows)
    (hregistered : s.registry.get first.datasource = some .external)
    (hsources : parseSqlSources text = .ok [first])
    (hbuilt : buildSubQuery text "sql" first.table = .ok sq)
    (hanswer : env.execute s.calls first.datasource sq = .ok batches) :
    (runText env text s).result = .ok ⟨batches, [first.datasource], []⟩ := by
  have hsame : singleSubQuery none sq = sq := by
    rw [singleSubQuery, Option.none_or]
  rw [runText_result env s hsources]
  simp only [executeRefs,
    executeSingle_result env text "sql" none s hregistered,
    hbuilt, bind, Except.bind, henv.chaos, hsame, answer, hanswer]
  rfl

omit [LinearOrder V] in
theorem union_returned (henv : env.Replies (fun _ => True) schema rows)
    (huntagged : ∀ ds sq, Schema.Untagged (schema ds sq))
    (hexternal : s.External (first :: rest))
    (hsources : parseSqlSources text = .ok (first :: rest))
    (hbuilt : buildSubQuery text "sql" first.table = .ok sq) (hne : rest ≠ [])
    (hunion : isUnionQuery text = true)
    (hshared : ∀ r ∈ first :: rest, schema r.datasource (sourceSubQuery sq r) =
      schema first.datasource sq) : ∃ fed,
    (runText env text s).result = .ok fed ∧
      (∀ b ∈ fed.batches, b.schema = schema first.datasource sq ++
        [datasourceField]) ∧
      fed.batches.flatMap plainRows = (first :: rest).flatMap fun r =>
        rows r.datasource (sourceSubQuery sq r) := by
  have hbase : unionBase text "sql" (first :: rest) = .ok sq := by
    simp only [unionBase, hbuilt, Fallible.orElse]
  obtain ⟨fed, hfed, hschema, hrows, -⟩ :=
    henv.union hexternal hbase (fun _ _ => trivial) hshared
  refine ⟨fed, ?_, hschema, plainRows_tagged (huntagged _ _) hschema hrows⟩
  obtain ⟨second, more, rfl⟩ := exists_cons_of_ne_nil hne
  rw [runText_result env s hsources, ← hfed]
  simp [executeRefs, hunion]

omit [LinearOrder V] in
private theorem join_returned (henv : env.Replies (fun _ => True) schema rows)
    (huntagged : ∀ ds sq, Schema.Untagged (schema ds sq)) {second : TableRef}
    {keyA keyB : Str} {i j : Nat} (hexternal : s.External [first, second])
    (hsources : parseSqlSources text = .ok [first, second])
    (hkind : (SelectKind.join keyA keyB i j).Of text schema rows first
      [second] sq) :
    ∃ fed joined, (runText env text s).result = .ok fed ∧
      (∀ b ∈ fed.batches, b.schema = joined) ∧ answerColumns joined ≠ [] ∧
      (schema first.datasource sq).length <
      (joined.filter fun f => !isTag f.name).length ∧
      fed.batches.flatMap (·.rows) =
        joinedRows text schema rows keyA keyB i j first second := by
  obtain ⟨_, hsecond, hunion, hon, hkeyA, hkeyB, hi, hj, huniqueA, huniqueB,
    hwidth, hmore⟩ := hkind
  cases List.cons.inj hsecond with
  | intro hsecond _ =>
  subst hsecond
  obtain ⟨batchesA, hanswerA, hschemaA, hrowsA⟩ :=
    henv.execute s.calls first.datasource (joinSubQuery first) trivial
  obtain ⟨batchesB, hanswerB, hschemaB, hrowsB⟩ :=
    henv.execute (s.calls + 1) second.datasource (joinSubQuery second) trivial
  have hA : AnswersTable first.datasource keyA _ batchesA
      (fetchedTable schema rows first i) :=
    ⟨hschemaA, hi, huniqueA, hkeyA, by rw [hrowsA]; rfl, rfl⟩
  have hB : AnswersTable second.datasource keyB _ batchesB
      (fetchedTable schema rows second j) :=
    ⟨hschemaB, hj, huniqueB, hkeyB, by rw [hrowsB]; rfl, rfl⟩
  obtain ⟨joined, hjoined, hschema, hrows⟩ :=
    joinAnswers_rows (fun v w => rfl : ∀ v w : V, sameDisplay v w = _) hA hB hon
  have hlength : ∀ {build probe : TableRef} {key : Str},
      ((joinedSchema (schema build.datasource (joinSubQuery build))
        (schema probe.datasource (joinSubQuery probe)) key).filter
          fun f => !isTag f.name).length =
        (schema first.datasource (joinSubQuery first)).length +
          (schema second.datasource (joinSubQuery second)).length - 1 →
      answerColumns (joinedSchema (schema build.datasource (joinSubQuery build))
        (schema probe.datasource (joinSubQuery probe)) key) ≠ [] := by
    intro build probe key hshown
    obtain ⟨f, hf⟩ := exists_mem_of_length_pos (hshown ▸ (by omega :
      0 < (schema first.datasource (joinSubQuery first)).length +
        (schema second.datasource (joinSubQuery second)).length - 1))
    obtain ⟨hf, htag⟩ := mem_filter.mp hf
    exact answerColumns_ne_nil hf (by simpa using htag)
  refine ⟨⟨joined, [first.datasource, second.datasource], []⟩, _, ?_, hschema,
    ?_, ?_, hrows⟩
  · rw [runText_result env s hsources]
    simp only [executeRefs, hunion, Bool.or_false]
    rw [if_neg (by decide)]
    exact executeJoin_answered (hexternal first (by simp))
      (hexternal second (by simp))
      henv.chaos henv.late hanswerA hanswerB hjoined
  all_goals
    have hAB := length_joinedSchema
      (huntagged first.datasource (joinSubQuery first))
      (huntagged _ _) hj hkeyB huniqueB
    have hBA := length_joinedSchema
      (huntagged second.datasource (joinSubQuery second))
      (huntagged _ _) hi hkeyA huniqueA
    rw [Nat.add_comm] at hBA
    unfold orderedSchema
    split
  · exact hlength hAB
  · exact hlength hBA
  · omega
  · omega

end Statements

section Example

attribute [local instance] asciiUnicode integersOnly textCells

def oneNumberSchema : Schema := (oneCell "n" "2").schema

def onlyInA : Env Str :=
  { Env.quiet Str with
    execute := fun _ ds _ => .ok (if ds = "a" then [oneCell "n" "2"] else []) }

def onlyInARows (ds : Str) : List (Row Str) :=
  if ds = "a" then [[some "2"]] else []

theorem onlyInA_replies :
    onlyInA.Replies (fun _ => True) (fun _ _ => oneNumberSchema)
    (fun ds _ => onlyInARows ds) where
  chaos _ _ := rfl
  late _ _ _ := rfl
  execute number ds sq _ := by
    refine ⟨_, rfl, ?_, ?_⟩
    · split <;> simp [oneNumberSchema, oneCell]
    · unfold onlyInARows
      split <;> rfl

attribute [local instance] quotedCells

end Example

end Fuse.Server
