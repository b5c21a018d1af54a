import Fuse.Connectors.SqlText
import Fuse.Server.UnionAll

/-!
# `LIMIT` and `OFFSET`

The window of a query is applied twice: the limit, and on one source the
offset, go to the connectors, and the handler skips and takes again.  A source
is asked for `l` rows and not for `o + l`, so the handler skips rows of a
result that is already cut.
-/

namespace Fuse.Server

open Foundation Windows Fuse.Core Engine List Fuse.Connectors

/-! ## The texts -/

def numeral (n : Nat) : SqlExpr := .value (.number (Str.ofNat n) false)

def windowClause (l o : Nat) : LimitClause :=
  .limitOffset (some (numeral l)) (some (numeral o))

section Texts

variable [Unicode] [FloatOps] [SqlParser]

/-- `bare` is a `SELECT` or a `UNION ALL`, and `text` is `bare` with
`LIMIT l OFFSET o`. -/
structure WindowOf (text bare : Str) (first : Branch) (rest : List Branch)
    (l o : Nat) : Prop where
  small : l < 2 ^ 64 ∧ o < 2 ^ 64
  tree : SqlParser.parseSql text =
    .ok [.query (.mk (unionTree first rest) none (some (windowClause l o)))]
  bareTree : SqlParser.parseSql bare = .ok
    [.query (.mk (unionTree first rest) none none)]
  table : ∃ t, extractTableName first.select.tables = .ok t
  sources : ∀ t ∈ [text, bare], parseSqlSources t =
    .ok (branchTables (first :: rest))
  union : rest ≠ [] → ∀ t ∈ [text, bare], isUnionQuery t = true
  plain : ∀ t ∈ [text, bare], parseGroupBy t = .ok [] ∧ parseHaving t = .ok none
  clauses : parseClauses text =
    .ok { orderBy := [], limit := some l, isDistinct := false, offset := o }
  bareClauses : parseClauses bare =
    .ok { orderBy := [], limit := none, isDistinct := false, offset := 0 }

def withWindow (q : SubQuery) (limit offset : Option Nat) : SubQuery :=
  { q with limit, offset }

def windowedQuery (first : Branch) (rest : List Branch) (l o : Nat) :
    SubQuery :=
  if rest.length ≤ 1 then
    withWindow (pushedQuery first rest) (some l) (some o)
  else withWindow (pushedQuery first rest) none none

omit [Unicode] [FloatOps] [SqlParser] in
theorem exprToU64_numeral {n : Nat} (h : n < 2 ^ 64) :
    exprToU64 (numeral n) = some n :=
  Str.parseUnsigned_ofNat h

theorem buildSubQuery_window {text bare : Str} {first : Branch}
    {rest : List Branch} {l o : Nat} (h : WindowOf text bare first rest l o) :
    buildSubQuery text "sql" first.ref.table =
      .ok (windowedQuery first rest l o) := by
  have hplanned := plannedSelect_unionTree first rest
  obtain ⟨t, ht⟩ := h.table
  unfold buildSubQuery sqlText
  rw [if_neg (by decide)]
  simp only [pure_bind, sqlToSubquery, h.tree, windowedQuery, withWindow,
    pushedQuery]
  by_cases hone : rest.length ≤ 1
  · rw [if_pos hone] at hplanned
    have hsingle : plannedSelect (.select first.select) = .ok first.select :=
      rfl
    simp only [queryToSubquery, Query.body, hplanned, hsingle, hone, if_true,
      Branch.subQuery, ht,
      bind, Except.bind, pure, Except.pure, Query.limitClause, Option.bind_some,
      windowClause, extractLimit, extractOffset, exprToU64_numeral h.small.1,
      exprToU64_numeral h.small.2]
    rfl
  · rw [if_neg hone] at hplanned
    simp only [queryToSubquery, Query.body, hplanned, hone, if_false]
    rfl

end Texts

section Sources

variable {V : Type} [ArrowKernels V] [Unicode] [FloatOps] [SqlParser]
  [FloatText]

/-! ## Sources that read the window off their text -/

def askedOfSource (first : Branch) (rest : List Branch) (r : TableRef) :
    SubQuery :=
  if (branchTables (first :: rest)).length = 1 then
    unwindowed (pushedQuery first rest)
  else unwindowed (sourceSubQuery (pushedQuery first rest) r)

def windowRows (limit offset : Option Nat) (rows : List (Row V)) :
    List (Row V) :=
  limited limit (rows.drop (offset.getD 0))

/-- Every source runs the text its connector writes; `held` are the rows of
the text without a window. -/
structure RunsText (env : Env V) (schema : Schema)
    (dialect : Str → Dialect) (first : Branch) (rest : List Branch)
    (held : TableRef → List (Row V)) : Prop where
  columns : schema ≠ []
  run : ∃ run : Str → Str → List (Row V),
    env.Replies (fun _ => True) (fun _ _ => schema)
        (fun ds sq => run ds ((dialect ds).sql sq)) ∧
      ∀ r ∈ branchTables (first :: rest), ∀ limit offset,
        run r.datasource ((dialect r.datasource).sql
            (askedOfSource first rest r) ++ limitClause limit ++
          offsetClause offset) = windowRows limit offset (held r)

def windowOfText (env : Env V) (text : Str) :
    Exec V (List (RecordBatch V)) := do
  let fed ← runText env text
  let clauses ← Exec.liftFallible (parseClauses text)
  let shaped ← Exec.liftFallible (shapeResult env text clauses fed)
  Exec.liftFallible (takeWindow (effectiveOffset clauses {})
    (effectivePageSize clauses {}) shaped)

def partsOf (first : Branch) (rest : List Branch)
    (held : TableRef → List (Row V)) : List (List (Row V)) :=
  if (branchTables (first :: rest)).length = 1 then [held first.ref]
  else (branchTables (first :: rest)).map fun r =>
    ((held r).take fanoutLimit).map (tagRow r.datasource)

/-- The rows of a query whose sub-query has the window `limit`, `offset`. -/
def sentRows (dialect : Str → Dialect) (first : Branch) (rest : List Branch)
    (held : TableRef → List (Row V)) (limit offset : Option Nat) :
    List (Row V) :=
  if (branchTables (first :: rest)).length = 1 then
    windowRows limit ((dialect first.ref.datasource).carried offset)
      (held first.ref)
  else (branchTables (first :: rest)).flatMap fun r =>
    (windowRows (pushLimit limit (some fanoutLimit)) none (held r)).map
    (tagRow r.datasource)

variable {clauses : PlanClauses} {dialect : Str → Dialect} {first : Branch}
  {rest : List Branch}

omit [FloatText] in
theorem windowOfText_result {env : Env V} {text : Str} {s : ExecState V}
    {fed : FederatedResult V} (hfed : (runText env text s).result = .ok fed)
    (hclauses : parseClauses text = .ok clauses)
    (hplain : parseGroupBy text = .ok [] ∧ parseHaving text = .ok none)
    (horder : clauses.orderBy = []) (hdistinct : clauses.isDistinct = false) :
    (windowOfText env text s).result = takeWindow (effectiveOffset clauses {})
      (effectivePageSize clauses {}) fed.batches := by
  have hshaped : shapeResult env text clauses fed = .ok fed.batches := by
    rw [shapeResult_ordered env hdistinct fed hplain.1 hplain.2, horder]
    cases fed.batches <;> rfl
  unfold windowOfText
  cases hrun : runText env text s with
  | mk result state trace =>
    rw [hrun] at hfed
    cases hfed
    simp [bind, hrun, Exec.liftFallible, Traced.lift, hclauses, hshaped]

theorem runText_windowed {env : Env V} {schema : Schema}
    {held : TableRef → List (Row V)}
    (hruns : RunsText env schema dialect first rest held)
    {s : ExecState V} (hexternal : s.External (branchTables (first :: rest)))
    {text : Str}
    (hsources : parseSqlSources text = .ok (branchTables (first :: rest)))
    (hunion : rest ≠ [] → isUnionQuery text = true) {limit offset : Option Nat}
    (hbuilt : buildSubQuery text "sql" first.ref.table = .ok
      (withWindow (pushedQuery first rest) limit offset)) :
    ∃ fed schema', (runText env text s).result = .ok fed ∧ schema' ≠ [] ∧
      (∀ b ∈ fed.batches, b.schema = schema') ∧
      fed.batches.flatMap (·.rows) =
        sentRows dialect first rest held limit offset := by
  obtain ⟨run, hreplies, hrun⟩ := hruns.run
  obtain ⟨-, -, hrange, -⟩ := pushedQuery_window first rest
  rw [runText_result env s hsources]
  obtain ⟨more, htables⟩ := branchTables_head first rest
  unfold askedOfSource at hrun
  unfold sentRows
  rw [htables] at hexternal hrun ⊢
  cases more with
  | nil =>
    obtain ⟨fed, hfed, hschema, hrows, -⟩ :=
      hreplies.single hexternal hbuilt none trivial
    refine ⟨fed, schema, hfed, hruns.columns, hschema, ?_⟩
    have hwindow := hrun first.ref mem_cons_self limit
      ((dialect first.ref.datasource).carried offset)
    rw [if_pos length_singleton] at hwindow
    rw [hrows, Dialect.sql_eq, if_pos length_singleton, ← hwindow]
    have hsame : singleSubQuery none
      (withWindow (pushedQuery first rest) limit offset) =
        withWindow (pushedQuery first rest) limit offset := by
        rw [singleSubQuery, Option.none_or]
    rw [hsame]
    rfl
  | cons second more =>
    have hbase : unionBase text "sql" (first.ref :: second :: more) =
        .ok (withWindow (pushedQuery first rest) limit offset) := by
      simp only [unionBase, hbuilt, Fallible.orElse]
    obtain ⟨fed, hfed, hschema, hrows, -⟩ := hreplies.union hexternal hbase
      (fun _ _ => trivial) (fun _ _ => rfl)
    refine ⟨fed, schema ++ [datasourceField], ?_, by simp, hschema, ?_⟩
    · have hrest : rest ≠ [] := by
        rintro rfl
        cases htables
      simp only [executeRefs, hunion hrest, Bool.or_true, if_true]
      exact hfed
    · rw [hrows, if_neg (by simp)]
      apply flatMap_congr
      intro r hr
      have hlimit := hrun r hr (pushLimit limit (some fanoutLimit)) none
      rw [if_neg (by simp)] at hlimit
      rw [Dialect.sql_eq, ← hlimit]
      cases dialect r.datasource <;> rfl

/-! ## When the two windows make up the one asked for -/

/-- With more than two branches the sources get no window.  Two sources and
most single ones get the limit alone: no part of the result before the offset
may be longer than it.  A single source that gets the offset too applies it
before the handler does. -/
def WindowKept (dialect : Str → Dialect) (first : Branch) (rest : List Branch)
    (held : TableRef → List (Row V)) (l o : Nat) : Prop := 1 < rest.length ∨
    if (branchTables (first :: rest)).length = 1 ∧
    dialect first.ref.datasource = .fuse then
      l = 0 ∨ (held first.ref).length ≤ o ∨ o = 0
    else Windows.Kept o l (partsOf first rest held)

omit [ArrowKernels V] [FloatText] in
theorem withWindow_pushedQuery (first : Branch) (rest : List Branch) :
    withWindow (pushedQuery first rest) none none = pushedQuery first rest := by
  obtain ⟨hlimit, hoffset, -⟩ := pushedQuery_window first rest
  cases hquery : pushedQuery first rest
  simp_all [withWindow]

omit [Unicode] [FloatOps] [SqlParser] [FloatText]

theorem sentRows_none (dialect : Str → Dialect) (first : Branch)
    (rest : List Branch) (held : TableRef → List (Row V)) :
    sentRows dialect first rest held none none =
      (partsOf first rest held).flatten := by
  unfold sentRows partsOf
  split
  · cases dialect first.ref.datasource <;>
      simp [windowRows, Dialect.carried, limited]
  · rw [← flatMap_def]
    rfl

private theorem sentRows_limited (held : TableRef → List (Row V)) (l o : Nat)
    (hcarried : ¬ ((branchTables (first :: rest)).length = 1 ∧
      dialect first.ref.datasource = .fuse)) :
    sentRows dialect first rest held (some l) (some o) =
        cut l (partsOf first rest held) := by
  unfold sentRows partsOf cut
  split
  · rename_i hone
    cases hdialect : dialect first.ref.datasource with
    | postgres => simp [windowRows, Dialect.carried, limited]
    | fuse => exact absurd ⟨hone, hdialect⟩ hcarried
  · rw [flatMap_map]
    apply flatMap_congr
    intro r _
    change (window 0 (min fanoutLimit l) (held r)).map _ = _
    rw [window, drop_zero, ← map_take, take_take, Nat.min_comm]

theorem window_sentRows (held : TableRef → List (Row V)) (l o : Nat)
    (hrest : rest.length ≤ 1) :
    (WindowKept dialect first rest held l o →
      window o l (sentRows dialect first rest held (some l) (some o)) =
        window o l (partsOf first rest held).flatten) ∧
    ((partsOf first rest held).flatten.Nodup →
      window o l (sentRows dialect first rest held (some l) (some o)) =
        window o l (partsOf first rest held).flatten →
        WindowKept dialect first rest held l o) := by
  rw [WindowKept, or_iff_right (Nat.not_lt.mpr hrest)]
  split
  · rename_i hfuse
    simp only [sentRows, if_pos hfuse.1, hfuse.2, windowRows, Dialect.carried,
      Option.getD_some, partsOf, flatten_singleton]
    exact ⟨(window_window_eq_iff o l _).mpr, fun _ =>
      (window_window_eq_iff o l _).mp⟩
  · rename_i hcarried
    rw [sentRows_limited held l o hcarried]
    exact ⟨window_cut, kept_of_window_cut⟩

omit [ArrowKernels V] in
theorem effectiveOffset_first (h : clauses.offset < 2 ^ 64) :
    effectiveOffset clauses {} = clauses.offset :=
  Nat.mod_eq_of_lt h

variable [Unicode] [FloatOps] [SqlParser] [FloatText]

/--
The rows of `LIMIT l OFFSET o` are rows `o` to `o + l` of the query without a
window if the two windows make it up; and only if, when all rows differ.
-/
theorem limit_offset_window_iff {env : Env V} {schema : Schema}
    {dialect : Str → Dialect}
    {first : Branch} {rest : List Branch} {held : TableRef → List (Row V)}
    (hruns : RunsText env schema dialect first rest held) {s : ExecState V}
    (hexternal : s.External (branchTables (first :: rest))) {text bare : Str}
    {l o : Nat} (h : WindowOf text bare first rest l o) :
    ∃ whole page, (windowOfText env bare s).result = .ok whole ∧
      (windowOfText env text s).result = .ok page ∧
      whole.flatMap (·.rows) = (partsOf first rest held).flatten ∧
      (WindowKept dialect first rest held l o →
        page.flatMap (·.rows) = window o l (whole.flatMap (·.rows))) ∧
      ((whole.flatMap (·.rows)).Nodup →
        page.flatMap (·.rows) = window o l (whole.flatMap (·.rows)) →
        WindowKept dialect first rest held l o) := by
  obtain ⟨hl, ho⟩ := h.small
  have hbareBuilt := buildSubQuery_tree h.bareTree
  rw [← withWindow_pushedQuery] at hbareBuilt
  obtain ⟨whole, schema', hwhole, -, -, hwholeRows⟩ :=
    runText_windowed hruns hexternal
    (h.sources bare (by simp)) (fun hrest =>
      h.union hrest bare (by simp)) hbareBuilt
  rw [sentRows_none] at hwholeRows
  have hbareResult := windowOfText_result hwhole h.bareClauses
    (h.plain bare (by simp)) rfl rfl
  -- the text with the window, whatever of it is planned into the sub-query
  have hpage : ∀ {limit offset : Option Nat}, buildSubQuery text "sql"
      first.ref.table = .ok (withWindow (pushedQuery first rest) limit
        offset) → ∃ page, (windowOfText env text s).result = .ok page ∧
      page.flatMap (·.rows) = window o l
          (sentRows dialect first rest held limit offset) := by
    intro limit offset hbuilt
    obtain ⟨fed, schema'', hfed, hne, hsame, hrows⟩ :=
      runText_windowed hruns hexternal
      (h.sources text (by simp)) (fun hrest =>
        h.union hrest text (by simp)) hbuilt
    rw [windowOfText_result hfed h.clauses (h.plain text (by simp)) rfl rfl,
      effectiveOffset_first ho, ← hrows]
    obtain ⟨page, hpage, -, hpageRows⟩ := takeWindow_same hne hsame o (some l)
    exact ⟨page, hpage, hpageRows⟩
  have hbuilt := buildSubQuery_window h
  unfold windowedQuery at hbuilt
  by_cases hone : rest.length ≤ 1
  · rw [if_pos hone] at hbuilt
    obtain ⟨page, hresult, hrows⟩ := hpage hbuilt
    refine ⟨whole.batches, page, hbareResult, hresult, hwholeRows, ?_⟩
    rw [hrows, hwholeRows]
    exact window_sentRows held l o hone
  · rw [if_neg hone] at hbuilt
    obtain ⟨page, hresult, hrows⟩ := hpage hbuilt
    rw [sentRows_none, ← hwholeRows] at hrows
    exact ⟨whole.batches, page, hbareResult, hresult, hwholeRows,
      fun _ => hrows, fun _ _ => .inl (by omega)⟩

end Sources

section Example

attribute [local instance] asciiUnicode integersOnly textCells

@[reducible] def noFloatText : FloatText := ⟨fun _ => []⟩

attribute [local instance] noFloatText

def threeRows : List (Row Str) := [[some "1"], [some "2"], [some "3"]]

theorem rowFits_windowRows (limit offset : Option Nat) :
    ∀ row ∈ windowRows limit offset threeRows,
    rowFits (oneCell "n" "").schema row = true := by
  intro row hrow
  have hmem : row ∈ threeRows := mem_of_mem_drop (mem_of_mem_limited hrow)
  have hall : ∀ row ∈ threeRows, rowFits (oneCell "n" "").schema row =
    true := by decide
  exact hall row hmem

def threeRowSource (dialect : Dialect) : Env Str :=
  { Env.quiet Str with
    execute := fun _ _ sq => .ok [{
      schema := (oneCell "n" "").schema
      rows := windowRows sq.limit (dialect.carried sq.offset) threeRows
      fits := rowFits_windowRows _ _ }] }

def secondText : Str := "SELECT n FROM a.t LIMIT 1 OFFSET 1"

def lastTwoText : Str := "SELECT n FROM a.t LIMIT 2 OFFSET 1"

def windowQuery (l o : Nat) : Query :=
  .mk (.select (numbersOf "a.t")) none (some (windowClause l o))

def askRows (env : Env Str) (query : Str) : Request Str where
  env
  body := { query }

theorem exists_runsText [SqlParser] (dialect : Dialect) (b : Branch) :
    ∃ env : Env Str, RunsText env (oneCell "n" "").schema (fun _ => dialect) b
      [] fun _ => threeRows := by
  classical
  let body := dialect.sql (askedOfSource b [] b.ref)
  let windowed (t : Str) (w : Option Nat × Option Nat) : Prop :=
    t = body ++ limitClause w.1 ++ offsetClause w.2
  let run (t : Str) : Option Nat × Option Nat :=
    if h : ∃ w, windowed t w then h.choose else (none, none)
  have hrun : ∀ limit offset,
    run (body ++ limitClause limit ++ offsetClause offset) =
        (limit, offset) := by
    intro limit offset
    have h : ∃ w, windowed (body ++ limitClause limit ++
        offsetClause offset) w :=
      ⟨(limit, offset), rfl⟩
    obtain ⟨hlimit, hoffset⟩ := windowText_injective h.choose_spec
    simp only [run, dif_pos h]
    exact Prod.ext hlimit.symm hoffset.symm
  refine ⟨{ Env.quiet Str with
    execute := fun _ _ sq => .ok [{
      schema := (oneCell "n" "").schema
      rows := windowRows (run (dialect.sql sq)).1
        (run (dialect.sql sq)).2 threeRows
      fits := rowFits_windowRows _ _ }] },
    by decide, fun _ t => windowRows (run t).1 (run t).2 threeRows, ?_, ?_⟩
  · exact {
      chaos := fun _ _ => rfl
      late := fun _ _ _ => rfl
      execute := fun _ _ _ _ => ⟨_, rfl, by
        intro b hb
        cases mem_singleton.mp hb
        rfl, by simp⟩ }
  · intro r hr limit offset
    cases mem_singleton.mp hr
    exact congrArg (fun w => windowRows w.1 w.2 threeRows) (hrun limit offset)

/-- The second row is skipped after the source has cut it off, and the second
row is skipped again after the source has skipped the first. -/
theorem offset_skips_twice :
    letI := tableParser (knownBranches
      [(secondText, windowQuery 1 1), (lastTwoText, windowQuery 2 1)])
    shown (serve {} (askRows (threeRowSource .postgres)
      (numbersBranch "a").text) freshServer) =
        some ⟨["n"], [[some "1"], [some "2"], [some "3"]]⟩ ∧
        shown (serve {} (askRows (threeRowSource .postgres) secondText)
          freshServer) = some ⟨[], []⟩ ∧ shown
      (serve {} (askRows (threeRowSource .fuse) lastTwoText) freshServer) = some
        ⟨["n"], [[some "3"]]⟩ := by refine ⟨?_, ?_, ?_⟩ <;> decide +kernel

def allButOneText : Str := "SELECT n FROM a.t LIMIT 5 OFFSET 1"

theorem allButOne_windowOf :
    letI := tableParser (knownBranches [(allButOneText, windowQuery 5 1)])
    WindowOf allButOneText (numbersBranch "a").text (numbersBranch "a")
        [] 5 1 := by
  let := tableParser (knownBranches [(allButOneText, windowQuery 5 1)])
  exact {
    small := by decide
    tree := rfl
    bareTree := rfl
    table := ⟨_, rfl⟩
    sources := by
      intro t ht
      rcases mem_pair.mp ht with rfl | rfl <;> rfl
    union := fun hrest => absurd rfl hrest
    plain := by
      intro t ht
      rcases mem_pair.mp ht with rfl | rfl <;> exact ⟨rfl, rfl⟩
    clauses := rfl
    bareClauses := rfl }

theorem limit_offset_window_all_but_one :
    letI := tableParser (knownBranches [(allButOneText, windowQuery 5 1)])
    ∃ (env : Env Str) (page : List (RecordBatch Str)),
      (windowOfText env allButOneText registeredAB).result = .ok page ∧
        page.flatMap (·.rows) = [[some "2".toList], [some "3".toList]] := by
  let := tableParser (knownBranches [(allButOneText, windowQuery 5 1)])
  obtain ⟨env, hruns⟩ := exists_runsText .postgres (numbersBranch "a")
  have hexternal : registeredAB.External
      (branchTables [numbersBranch "a"]) := by
    intro r hr
    cases mem_singleton.mp hr
    rfl
  obtain ⟨whole, page, -, hpage, hwhole, hkept, -⟩ :=
    limit_offset_window_iff hruns hexternal allButOne_windowOf
  refine ⟨env, page, hpage, ?_⟩
  rw [hkept (.inr (.inr (.inr (by decide)))), hwhole]
  decide

end Example

end Fuse.Server
