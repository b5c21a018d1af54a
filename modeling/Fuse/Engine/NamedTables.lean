import Fuse.Engine.SqlToSubquery

/-!
# The tables a statement names

`FuseExecutor::execute` of `fuse-engine/src/planner.rs` sends a statement to
its connector as one sub-query, which has room for one table.  Here are all
tables a statement names, in its `FROM` clauses at any depth and in the
sub-queries of its expressions.
-/

namespace Fuse.Engine

open Foundation Fuse.Core List

/-- The tables named inside the leaves of the tree: in the sub-queries of an
expression, and in a form the tree keeps as text. -/
structure LeafTables where
  inExpr : SqlExpr → List ObjectName
  inText : Str → List ObjectName

/-! ## Expressions of a query -/

def SelectItem.exprs : SelectItem → List SqlExpr
  | .unnamedExpr e => [e]
  | .exprWithAlias e _ => [e]
  | .wildcard => []
  | .qualifiedWildcard _ => []

def GroupByExpr.exprs : GroupByExpr → List SqlExpr
  | .expressions es => es
  | .all => []

def OrderByKind.exprs : OrderByKind → List SqlExpr
  | .expressions es => es.map (·.expr)
  | .all => []

def LimitClause.exprs : LimitClause → List SqlExpr
  | .limitOffset limit offset => limit.toList ++ offset.toList
  | .offsetCommaLimit offset limit => [offset, limit]

section Tables

variable (leaves : LeafTables)

mutual

def factorTables : TableFactor → List ObjectName
  | .table name => [name]
  | .derived q => queryTables q
  | .nestedJoin t => itemTables t
  | .other text => leaves.inText text

def joinTables : List Join → List ObjectName
  | [] => []
  | .mk relation constraint :: joins =>
    factorTables relation ++ constraint.toList.flatMap leaves.inExpr ++
      joinTables joins

def itemTables : TableWithJoins → List ObjectName
  | .mk relation joins => factorTables relation ++ joinTables joins

def fromTables : List TableWithJoins → List ObjectName
  | [] => []
  | item :: items => itemTables item ++ fromTables items

def selectTables : Select → List ObjectName
  | .mk projection tables selection groupBy having =>
    fromTables tables ++ (projection.flatMap SelectItem.exprs ++
      selection.toList ++ groupBy.exprs ++ having.toList).flatMap leaves.inExpr

def setTables : SetExpr → List ObjectName
  | .select s => selectTables s
  | .setOperation l r => setTables l ++ setTables r
  | .query q => queryTables q
  | .other text => leaves.inText text

def cteTables : List Query → List ObjectName
  | [] => []
  | q :: qs => queryTables q ++ cteTables qs

def queryTables : Query → List ObjectName
  | .withCtes ctes body orderBy limitClause =>
    setTables body ++ (orderBy.toList.flatMap OrderByKind.exprs ++
        limitClause.toList.flatMap LimitClause.exprs).flatMap leaves.inExpr ++
      cteTables ctes

end

end Tables

/-! ## Which statements are planned -/

mutual

def startsWithTable : TableFactor → Bool
  | .table _ => true
  | .derived (.withCtes _ (.select s) _ _) => selectStarts s
  | .derived _ => false
  | .nestedJoin _ => false
  | .other _ => false

def selectStarts : Select → Bool
  | .mk _ tables _ _ _ => fromStarts tables

def fromStarts : List TableWithJoins → Bool
  | [] => false
  | .mk relation _ :: _ => startsWithTable relation

end

def accepted (query : Query) : Bool :=
  match query.body with
  | .select s => selectStarts s
  | .setOperation (.select s) _ => selectStarts s
  | _ => false

section Found

/-- The name found is that of a table the clause names, and one is found
exactly if the clause starts with a table. -/
def FindsTable (starts : Bool) (names : List ObjectName)
    (found : Except ConnectorError Str) : Prop :=
  match found with
  | .error _ => starts = false
  | .ok table =>
    starts = true ∧ ∃ name ∈ names, objectNameToString name = table

theorem FindsTable.append {starts : Bool} {names : List ObjectName}
    {found : Except ConnectorError Str} (h : FindsTable starts names found)
    (more : List ObjectName) : FindsTable starts (names ++ more) found := by
  cases found with
  | error e => exact h
  | ok table =>
    obtain ⟨hstarts, name, hmem, hname⟩ := h
    exact ⟨hstarts, name, mem_append_left more hmem, hname⟩

variable (leaves : LeafTables)

mutual

theorem tableFactorName_finds : ∀ t : TableFactor,
    FindsTable (startsWithTable t) (factorTables leaves t) (tableFactorName t)
  | .table name => by
      simp [tableFactorName, startsWithTable, factorTables, FindsTable]
  | .derived (.withCtes ctes (.select s) o l) => by
      have hinner := selectTableName_finds s
      simp only [tableFactorName, startsWithTable, factorTables, queryTables,
        setTables]
      exact hinner.append _ |>.append _
  | .derived (.withCtes _ (.setOperation _ _) _ _) => rfl
  | .derived (.withCtes _ (.query _) _ _) => rfl
  | .derived (.withCtes _ (.other _) _ _) => rfl
  | .nestedJoin _ => rfl
  | .other _ => rfl

theorem selectTableName_finds : ∀ s : Select,
    FindsTable (selectStarts s) (selectTables leaves s) (selectTableName s)
  | .mk _ tables _ _ _ => (extractTableName_finds tables).append _

theorem extractTableName_finds : ∀ tables : List TableWithJoins,
    FindsTable (fromStarts tables) (fromTables leaves tables)
    (extractTableName tables)
  | [] => rfl
  | .mk relation _ :: _ =>
    ((tableFactorName_finds relation).append _).append _

end

end Found

section Planning

variable [Unicode] [FloatOps] [SqlParser]

def fuseExecute {B : Type} (execute : SubQuery → Except ConnectorError B)
    (sql : Str) : Except ConnectorError B := do
  execute (← sqlToSubquery sql)

/-- A sub-query reads one table; `same` says which names denote one table. -/
def ReadsEach (same : Setoid ObjectName) (names : List ObjectName)
    (sq : SubQuery) : Prop :=
  ∃ table, objectNameToString table = sq.table ∧ ∀ name ∈ names,
    same.r table name

def PlansEach (same : Setoid ObjectName) (names : List ObjectName) (sql : Str) :
    Prop :=
  (∃ e, sqlToSubquery sql = .error e) ∨ ∃ sq, sqlToSubquery sql = .ok sq ∧
    ReadsEach same names sq

def AnswersEach (same : Setoid ObjectName) (names : List ObjectName)
    (sql : Str) : Prop :=
  ∀ (B : Type) (execute : SubQuery → Except ConnectorError B) (answer : B),
    fuseExecute execute sql = .ok answer → ∃ sq, ReadsEach same names sq ∧
    execute sq = .ok answer

variable (leaves : LeafTables) (same : Setoid ObjectName)

private theorem table_queryToSubquery {q : Query} {s : Select}
    (h : plannedSelect q.body = .ok s) :
    (queryToSubquery q).map (·.table) = selectTableName s := by
  obtain ⟨projection, tables, selection, groupBy, having⟩ := s
  simp only [queryToSubquery, h]
  change Except.map _ (extractTableName tables >>= _) = extractTableName tables
  cases extractTableName tables <;> rfl

theorem queryToSubquery_finds (q : Query) :
    FindsTable (accepted q) (queryTables leaves q)
    ((queryToSubquery q).map (·.table)) := by
  obtain ⟨ctes, body, orderBy, limitClause⟩ := q
  cases body with
  | select s =>
    rw [table_queryToSubquery rfl]
    exact ((selectTableName_finds leaves s).append _).append _
  | setOperation l r =>
    cases l with
    | select s =>
      rw [table_queryToSubquery rfl]
      exact (((selectTableName_finds leaves s).append _).append _).append _
    | _ => rfl
  | query q | other text => rfl

theorem sqlToSubquery_query {sql : Str} {q : Query}
    (hparse : SqlParser.parseSql sql = .ok [.query q]) :
    sqlToSubquery sql = queryToSubquery q := by
  rw [sqlToSubquery, hparse]

variable {leaves same} {sql : Str} {names : List ObjectName}

theorem plans_of_error {e : ConnectorError} (h : sqlToSubquery sql = .error e) :
    PlansEach same names sql ∧ AnswersEach same names sql := by
  refine ⟨.inl ⟨e, h⟩, fun B execute answer hanswer => ?_⟩
  rw [fuseExecute, h] at hanswer
  cases hanswer

theorem plans_iff_reads {sq : SubQuery} (h : sqlToSubquery sql = .ok sq) :
    PlansEach same names sql ∧ AnswersEach same names sql ↔
    ReadsEach same names sq := by
  constructor
  · rintro ⟨⟨e, he⟩ | ⟨sq', hsq, hreads⟩, -⟩
    · cases h.symm.trans he
    · cases h.symm.trans hsq
      exact hreads
  · intro hreads
    refine ⟨.inr ⟨sq, h, hreads⟩, fun B execute answer hanswer => ?_⟩
    rw [fuseExecute, h] at hanswer
    exact ⟨sq, hreads, hanswer⟩

omit [Unicode] [FloatOps] [SqlParser] in
private theorem readsEach_iff {sq : SubQuery}
    (h : ∃ name ∈ names, objectNameToString name = sq.table) :
    ReadsEach same names sq ↔ ∀ n ∈ names, ∀ m ∈ names, same.r n m := by
  constructor
  · rintro ⟨table, -, hall⟩ n hn m hm
    exact same.trans (same.symm (hall n hn)) (hall m hm)
  · intro hall
    obtain ⟨name, hmem, hname⟩ := h
    exact ⟨name, hname, hall name hmem⟩

variable (leaves same)

/-- A statement is refused or every table it names is read, exactly if it is
refused for its shape or names one table only. -/
theorem no_table_dropped_iff (sql : Str) (q : Query)
    (hparse : SqlParser.parseSql sql = .ok [.query q]) :
    PlansEach same (queryTables leaves q) sql ∧
    AnswersEach same (queryTables leaves q) sql ↔
    (accepted q = true → ∀ n ∈ queryTables leaves q, ∀ m ∈ queryTables leaves q,
      same.r n m) := by
  have hfinds := queryToSubquery_finds leaves q
  have hplan := sqlToSubquery_query hparse
  cases hq : queryToSubquery q with
  | error e =>
    rw [hq] at hplan hfinds
    have hrefused : accepted q = false := hfinds
    rw [hrefused]
    exact iff_of_true (plans_of_error hplan) nofun
  | ok sq =>
    rw [hq] at hplan hfinds
    obtain ⟨haccepted, hnamed⟩ := hfinds
    rw [plans_iff_reads hplan, readsEach_iff hnamed, haccepted]
    exact ⟨fun h _ => h, fun h => h rfl⟩

end Planning

section Sample

attribute [local instance] asciiUnicode integersOnly

def noLeaves : LeafTables := ⟨fun _ => [], fun _ => []⟩

def sameName : Setoid ObjectName := ⟨Eq, eq_equivalence⟩

def allFrom (tables : List TableWithJoins) : Query :=
  .mk (.select (.mk [.wildcard] tables none (.expressions []) none)) none none

def ordersAndRefunds : Query :=
  allFrom (fromTable "orders" ++ fromTable "refunds")

theorem second_table_is_dropped :
    letI := tableParser [("SELECT * FROM orders, refunds", ordersAndRefunds)]
    let sql : Str := "SELECT * FROM orders, refunds"
    fuseExecute (fun sq => .ok sq.table) sql = .ok ("orders" : Str) ∧
      ¬ PlansEach sameName (queryTables noLeaves ordersAndRefunds) sql := by
  let := tableParser [("SELECT * FROM orders, refunds", ordersAndRefunds)]
  have hplan : sqlToSubquery ("SELECT * FROM orders, refunds" : Str) =
      .ok { table := "orders" } := by decide +kernel
  refine ⟨by rw [fuseExecute, hplan]; rfl, ?_⟩
  rintro (⟨e, he⟩ | ⟨sq, -, table, -, hall⟩)
  · cases hplan.symm.trans he
  · have horders : table = [.identifier { value := "orders" }] :=
      hall _ (mem_cons_self ..)
    have hrefunds : table = [.identifier { value := "refunds" }] :=
      hall _ (mem_cons_of_mem _ (mem_cons_self ..))
    exact absurd (horders.symm.trans hrefunds) (by decide)

theorem no_table_dropped_orders :
    letI := tableParser [("SELECT * FROM orders", allFrom (fromTable "orders"))]
    PlansEach sameName (queryTables noLeaves (allFrom (fromTable "orders")))
        "SELECT * FROM orders" ∧
      AnswersEach sameName (queryTables noLeaves (allFrom (fromTable "orders")))
        "SELECT * FROM orders" := by
  let := tableParser [("SELECT * FROM orders", allFrom (fromTable "orders"))]
  refine (no_table_dropped_iff noLeaves sameName _ _ ?_).mpr ?_
  · rfl
  · intro _ n hn m hm
    have hone : queryTables noLeaves (allFrom (fromTable "orders")) =
        [[.identifier { value := "orders" }]] := rfl
    rw [hone, mem_singleton] at hn hm
    exact hn.trans hm.symm

end Sample

end Fuse.Engine
