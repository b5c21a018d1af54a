import Fuse.Engine.SqlAst

/-!
# From SQL to a sub-query

The translation of `fuse-engine/src/sql_to_subquery.rs`, function by function.
A part of a `WHERE` clause without a counterpart in `FilterExpr` is dropped or
makes its surroundings untranslatable, as each branch of the source says.
-/

namespace Fuse.Engine

open Foundation Fuse.Core

variable [Unicode] [FloatOps] [SqlParser]

/-! ## Names and literals -/

def objectNameToString (name : ObjectName) : Str :=
  match name.getLast? with
  | some (.identifier id) => id.value
  | _ => []

def exprToColumnName : SqlExpr → Option Str
  | .identifier id => some id.value
  | .compoundIdentifier ids => ids.getLast?.map (·.value)
  | .function f => some (SqlParser.exprToString (.function f))
  | _ => none

def valueToScalar : Value → Option ScalarValue
  | .number n _ =>
    match Str.parseI64 n with
    | some i => some (.int64 i)
    | none => (FloatOps.parse n).map .float64
  | .singleQuotedString s => some (.utf8 s)
  | .doubleQuotedString s => some (.utf8 s)
  | .boolean b => some (.boolean b)
  | .null => some .null
  | .other _ => none

/-- `-v` for the two numeric scalars; an `i64` wraps. -/
def negateScalar : ScalarValue → Option ScalarValue
  | .int64 n => some (.int64 (-n))
  | .float64 f => some (.float64 f.neg)
  | _ => none

def sqlExprToScalar : SqlExpr → Option ScalarValue
  | .value v => valueToScalar v
  | .unaryOp .minus inner => (sqlExprToScalar inner).bind negateScalar
  | _ => none

/-! ## Filters -/

def comparisonOp : BinaryOperator → Option ComparisonOp
  | .eq => some .eq
  | .notEq => some .neq
  | .lt => some .lt
  | .ltEq => some .lte
  | .gt => some .gt
  | .gtEq => some .gte
  | _ => none

def reversedOp : ComparisonOp → ComparisonOp
  | .lt => .gt
  | .lte => .gte
  | .gt => .lt
  | .gte => .lte
  | other => other

def translateComparison (left : SqlExpr) (op : BinaryOperator)
    (right : SqlExpr) : Option FilterExpr :=
  match comparisonOp op with
  | none => none
  | some op =>
    match exprToColumnName left, sqlExprToScalar right with
    | some field, some value => some (.comparison field op value)
    | _, _ =>
      match sqlExprToScalar left, exprToColumnName right with
      | some value, some field =>
        some (.comparison field (reversedOp op) value)
      | _, _ => none

def negateIf (negated : Bool) (f : FilterExpr) : FilterExpr :=
  if negated then .not f else f

def translateIn (expr : SqlExpr) (list : List SqlExpr) (negated : Bool) :
    Option FilterExpr := do
  let col ← exprToColumnName expr
  return negateIf negated (.inList col (list.filterMap sqlExprToScalar))

/-- `LIKE` and `ILIKE`: the escape character is not read. -/
def translateLike (op : ComparisonOp) (negated : Bool)
    (expr pattern : SqlExpr) : Option FilterExpr := do
  let field ← exprToColumnName expr
  let value ← sqlExprToScalar pattern
  return negateIf negated (.comparison field op value)

def translateBetween (expr : SqlExpr) (negated : Bool)
    (low high : SqlExpr) : Option FilterExpr := do
  let field ← exprToColumnName expr
  let lowVal ← sqlExprToScalar low
  let highVal ← sqlExprToScalar high
  return negateIf negated (.and (.comparison field .gte lowVal)
    (.comparison field .lte highVal))

def translateAnd : Option FilterExpr → Option FilterExpr → Option FilterExpr
  | some l, some r => some (.and l r)
  | some l, none => some l
  | none, some r => some r
  | none, none => none

def translateOr : Option FilterExpr → Option FilterExpr → Option FilterExpr
  | some l, some r => some (.or l r)
  | _, _ => none

def translateExpr : SqlExpr → Option FilterExpr
  | .binaryOp left .and right =>
    translateAnd (translateExpr left) (translateExpr right)
  | .binaryOp left .or right =>
    translateOr (translateExpr left) (translateExpr right)
  | .binaryOp left op right => translateComparison left op right
  | .unaryOp .not inner => (translateExpr inner).map .not
  | .isNull inner => (exprToColumnName inner).map .isNull
  | .isNotNull inner => (exprToColumnName inner).map .isNotNull
  | .inList expr list negated => translateIn expr list negated
  | .like negated _ expr pattern _ => translateLike .like negated expr pattern
  | .iLike negated _ expr pattern _ =>
    translateLike .iLike negated expr pattern
  | .nested inner => translateExpr inner
  | .between expr negated low high => translateBetween expr negated low high
  | _ => none

/-! ## Projections and aggregations -/

def aggFunction (name : Str) (isDistinct : Bool) : Option AggFunction :=
  if name = "count" then some (if isDistinct then .countDistinct else .count)
  else if name = "sum" then some .sum
  else if name = "avg" then some .avg
  else if name = "min" then some .min
  else if name = "max" then some .max
  else none

def FunctionArguments.isDistinct {E : Type} : FunctionArguments E → Bool
  | .list (some .distinct) _ => true
  | _ => false

def aggField (f : Function SqlExpr) : Option Str :=
  match f.args with
  | .list _ (.expr e :: _) => exprToColumnName e
  | _ => none

def tryExtractAgg (expr : SqlExpr) (aliasName : Option Str) :
    Option AggregationExpr :=
  match expr with
  | .function f =>
    if f.window.isSome then none
    else
      let funcName := toLowercase (SqlParser.objectNameToString f.name)
      (aggFunction funcName f.args.isDistinct).map fun function =>
        let field := aggField f
        let byDefault : Str := match field with
          | some name => funcName ++ "_" ++ name
          | none => funcName
        { function, field, aliasName := aliasName.getD byDefault }
  | _ => none

def extractProjectionsAndAggs :
    List SelectItem → List Str × List AggregationExpr
  | [] => ([], [])
  | item :: items =>
    let (projections, aggregations) := extractProjectionsAndAggs items
    match item with
    | .unnamedExpr expr =>
      match tryExtractAgg expr none, exprToColumnName expr with
      | some agg, _ => (projections, agg :: aggregations)
      | none, some col => (col :: projections, aggregations)
      | none, none =>
        (SqlParser.exprToString expr :: projections, aggregations)
    | .exprWithAlias expr aliasIdent =>
      match tryExtractAgg expr (some aliasIdent.value),
          exprToColumnName expr with
      | some agg, _ => (projections, agg :: aggregations)
      | none, some col => (col :: projections, aggregations)
      | none, none =>
        ((SqlParser.exprToString expr ++ " AS " ++ aliasIdent.value) ::
          projections, aggregations)
    | .wildcard => (projections, aggregations)
    | .qualifiedWildcard _ => (projections, aggregations)

/-! ## The other clauses -/

def extractGroupBy : GroupByExpr → List Str
  | .expressions exprs => exprs.filterMap exprToColumnName
  | .all => []

def extractOrderBy : OrderByKind → List SortExpr
  | .expressions exprs => exprs.filterMap fun o =>
    (exprToColumnName o.expr).map fun field =>
      { field, descending := (o.asc.map (!·)).getD false }
  | .all => []

def exprToU64 : SqlExpr → Option Nat
  | .value (.number n _) => Str.parseUnsigned 64 n
  | _ => none

def extractLimit : LimitClause → Option Nat
  | .limitOffset limit _ => limit.bind exprToU64
  | .offsetCommaLimit _ limit => exprToU64 limit

def extractOffset : LimitClause → Option Nat
  | .limitOffset _ offset => offset.bind exprToU64
  | .offsetCommaLimit _ _ => none

def extractInnerFilter (tables : List TableWithJoins) : Option FilterExpr :=
  match tables with
  | .mk (.derived (.withCtes _ (.select inner) _ _)) _ :: _ =>
    inner.selection.bind translateExpr
  | _ => none

mutual

def tableFactorName : TableFactor → Except ConnectorError Str
  | .table name => .ok (objectNameToString name)
  | .derived (.withCtes _ (.select inner) _ _) => selectTableName inner
  | .derived _ => .error (.queryFailed "unsupported subquery body")
  | .nestedJoin _ => .error (.queryFailed "unsupported FROM clause")
  | .other _ => .error (.queryFailed "unsupported FROM clause")

def selectTableName : Select → Except ConnectorError Str
  | .mk _ tables _ _ _ => extractTableName tables

/-- The table of the first relation, looked up inside derived tables; joins
are not read. -/
def extractTableName : List TableWithJoins → Except ConnectorError Str
  | [] => .error (.queryFailed "no FROM clause")
  | .mk relation _ :: _ => tableFactorName relation

end

/-- The `SELECT` that is planned: of a set operation, the first branch. -/
def plannedSelect : SetExpr → Except ConnectorError Select
  | .select s => .ok s
  | .setOperation (.select s) _ => .ok s
  | .setOperation _ _ => .error (.queryFailed "expected SELECT in UNION")
  | _ => .error (.queryFailed "expected simple SELECT")

def mergeFilters (outer inner : Option FilterExpr) : Option FilterExpr :=
  match outer, inner with
  | some o, some i => some (.and o i)
  | some f, none => some f
  | none, some f => some f
  | none, none => none

def queryToSubquery (query : Query) : Except ConnectorError SubQuery := do
  let select ← plannedSelect query.body
  let table ← extractTableName select.tables
  let (projections, aggregations) :=
    extractProjectionsAndAggs select.projection
  return {
    table
    projections
    filter := mergeFilters (select.selection.bind translateExpr)
      (extractInnerFilter select.tables)
    aggregations
    groupBy := extractGroupBy select.groupBy
    having := select.having.bind translateExpr
    sort := (query.orderBy.map extractOrderBy).getD []
    limit := query.limitClause.bind extractLimit
    offset := query.limitClause.bind extractOffset
  }

def sqlToSubquery (sql : Str) : Except ConnectorError SubQuery :=
  match SqlParser.parseSql sql with
  | .error e => .error (.queryFailed ("SQL parse error: " ++ e))
  | .ok [] => .error (.queryFailed "empty SQL")
  | .ok (.query q :: _) => queryToSubquery q
  | .ok (.other _ :: _) => .error (.queryFailed "expected SELECT query")

end Fuse.Engine
