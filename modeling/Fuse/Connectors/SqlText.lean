import Fuse.Core.Connector

/-!
# The SQL text connectors send

`subquery_to_sql` of the PostgreSQL connector and `build_remote_sql` of the
connector to another Fuse server, with the quoting of `fuse-core/src/sql.rs`.
Only the second writes an `OFFSET`.
-/

namespace Fuse.Connectors

open Foundation Fuse.Core List

/-- The text `to_string` gives a double. -/
class FloatText where
  display : F64 → Str

/-! ## Names and literals -/

def quoteIdent (name : Str) : Str :=
  "\"" ++ Str.replace "\"" "\"\"" name ++ "\""

def quoteTable (name : Str) : Str :=
  if Str.startsWith "(" name || Str.startsWith "\"" name then name
  else quoteIdent name

structure Wording where
  ident : Str → Str
  operator : ComparisonOp → Str

def commonOperator (iLike : Str) : ComparisonOp → Str
  | .eq => "="
  | .neq => "!="
  | .lt => "<"
  | .lte => "<="
  | .gt => ">"
  | .gte => ">="
  | .like => "LIKE"
  | .iLike => iLike
  | .contains => iLike

section Texts

variable [FloatText]

def scalarToSql : ScalarValue → Str
  | .utf8 s => "'" ++ Str.replace "'" "''" s ++ "'"
  | .int64 n => Str.ofInt n.toInt
  | .float64 f => FloatText.display f
  | .boolean b => if b then "true" else "false"
  | .null => "NULL"

def filterToSql (w : Wording) : FilterExpr → Str
  | .and l r => "(" ++ filterToSql w l ++ " AND " ++ filterToSql w r ++ ")"
  | .or l r => "(" ++ filterToSql w l ++ " OR " ++ filterToSql w r ++ ")"
  | .not inner => "NOT (" ++ filterToSql w inner ++ ")"
  | .comparison field op value =>
    w.ident field ++ " " ++ w.operator op ++ " " ++ scalarToSql value
  | .inList field values =>
    w.ident field ++ " IN (" ++ Str.joinWith ", " (values.map scalarToSql) ++
      ")"
  | .isNull field => w.ident field ++ " IS NULL"
  | .isNotNull field => w.ident field ++ " IS NOT NULL"

/-! ## Clauses -/

def listClause (keyword : Str) (parts : List Str) : Str :=
  if parts.isEmpty then [] else keyword ++ Str.joinWith ", " parts

def filterClause (w : Wording) (keyword : Str) : Option FilterExpr → Str
  | some f => keyword ++ filterToSql w f
  | none => []

def sortText (w : Wording) (s : SortExpr) : Str :=
  if s.descending then w.ident s.field ++ " DESC" else w.ident s.field

def middleClauses (w : Wording) (q : SubQuery) : Str :=
  filterClause w " WHERE " q.filter ++
    listClause " GROUP BY " (q.groupBy.map w.ident) ++
    filterClause w " HAVING " q.having ++
      listClause " ORDER BY " (q.sort.map (sortText w))

def limitClause : Option Nat → Str
  | some n => " LIMIT " ++ Str.ofNat n
  | none => []

def offsetClause : Option Nat → Str
  | some n => " OFFSET " ++ Str.ofNat n
  | none => []

namespace Postgres

def wording : Wording where
  ident := quoteIdent
  operator := commonOperator "ILIKE"

def aggregateText (a : AggregationExpr) : Str :=
  let field := (a.field.map quoteIdent).getD "*"
  let expr : Str := match a.function with
    | .count => "COUNT(" ++ field ++ ")"
    | .sum => "SUM(" ++ field ++ ")"
    | .avg => "AVG(" ++ field ++ ")"
    | .min => "MIN(" ++ field ++ ")"
    | .max => "MAX(" ++ field ++ ")"
    | .countDistinct => "COUNT(DISTINCT " ++ field ++ ")"
    | .approxCountDistinct => "COUNT(DISTINCT " ++ field ++ ")"
    | .approxPercentile p =>
      "PERCENTILE_CONT(" ++ FloatText.display p ++
        ") WITHIN GROUP (ORDER BY " ++ field ++ ")"
  expr ++ " AS " ++ quoteIdent a.aliasName

def selectText (q : SubQuery) : Str :=
  if !q.aggregations.isEmpty then
    Str.joinWith ", " (q.groupBy.map quoteIdent ++
      q.aggregations.map aggregateText)
  else if !q.projections.isEmpty then
    Str.joinWith ", " (q.projections.map fun p : Str =>
      if p = "*" then p else quoteIdent p)
  else "*"

def bodyText (q : SubQuery) : Str :=
  "SELECT " ++ selectText q ++ " FROM " ++ quoteTable q.table ++
    middleClauses wording q

def subqueryToSql (q : SubQuery) : Str := bodyText q ++ limitClause q.limit

end Postgres

namespace Remote

def wording : Wording where
  ident := id
  operator := commonOperator "LIKE"

def bodyText (q : SubQuery) : Str :=
  let cols : Str :=
    if q.projections.isEmpty then "*" else Str.joinWith ", " q.projections
  "SELECT " ++ cols ++ " FROM " ++ q.table ++ middleClauses wording q

def buildRemoteSql (q : SubQuery) : Str :=
  bodyText q ++ limitClause q.limit ++ offsetClause q.offset

end Remote

/-! ## The window in the text -/

inductive Dialect where
  | postgres | fuse
  deriving DecidableEq, Repr

def Dialect.sql : Dialect → SubQuery → Str
  | .postgres => Postgres.subqueryToSql
  | .fuse => Remote.buildRemoteSql

def Dialect.carried : Dialect → Option Nat → Option Nat
  | .postgres, _ => none
  | .fuse, offset => offset

def unwindowed (q : SubQuery) : SubQuery :=
  { q with limit := none, offset := none }

theorem middleClauses_unwindowed (w : Wording) (q : SubQuery) :
    middleClauses w (unwindowed q) = middleClauses w q := rfl

theorem Postgres.bodyText_unwindowed (q : SubQuery) :
    bodyText (unwindowed q) = bodyText q := by
  have hselect : selectText (unwindowed q) = selectText q := rfl
  have htable : (unwindowed q).table = q.table := rfl
  unfold bodyText
  rw [hselect, htable, middleClauses_unwindowed]

theorem Remote.bodyText_unwindowed (q : SubQuery) :
    bodyText (unwindowed q) = bodyText q := by
  have htable : (unwindowed q).table = q.table := rfl
  have hcols : (unwindowed q).projections = q.projections := rfl
  unfold bodyText
  rw [htable, hcols, middleClauses_unwindowed]

theorem Dialect.sql_eq (d : Dialect) (q : SubQuery) :
    d.sql q = d.sql (unwindowed q) ++ limitClause q.limit ++
    offsetClause (d.carried q.offset) := by
  have hlimit : limitClause (unwindowed q).limit = [] := rfl
  have hoffset : offsetClause (unwindowed q).offset = [] := rfl
  have hnone : offsetClause none = [] := rfl
  cases d with
  | postgres =>
    rw [Dialect.sql, Postgres.subqueryToSql, Postgres.subqueryToSql,
      Postgres.bodyText_unwindowed, hlimit, carried, hnone]
    simp
  | fuse =>
    rw [Dialect.sql, Remote.buildRemoteSql, Remote.buildRemoteSql,
      Remote.bodyText_unwindowed, hlimit, hoffset, carried]
    simp

/-! ## Reading the window back -/

omit [FloatText] in
theorem takeWhile_ofNat (n : Nat) (offset : Option Nat) :
    (Str.ofNat n ++ offsetClause offset).takeWhile Char.isDigit =
      Str.ofNat n := by
  have hdigits : ∀ c ∈ Str.ofNat n, c.isDigit = true := fun c hc =>
    Nat.isDigit_of_mem_toDigits (by decide) (by decide) hc
  rw [takeWhile_append_of_pos hdigits]
  cases offset with
  | none => exact append_nil _
  | some m =>
    change Str.ofNat n ++ List.takeWhile _ (' ' :: _) = _
    rw [takeWhile_cons_of_neg (by decide), append_nil]

omit [FloatText] in
private theorem offsetClause_injective {a b : Option Nat}
    (h : offsetClause a = offsetClause b) : a = b := by
  cases a with
  | none =>
    cases b with
    | none => rfl
    | some m => cases h
  | some n =>
    cases b with
    | none => cases h
    | some m =>
      have hdigits : Str.ofNat n = Str.ofNat m := append_cancel_left h
      have hparsed := congrArg Str.parseDigits hdigits
      rwa [Str.parseDigits_ofNat, Str.parseDigits_ofNat] at hparsed

omit [FloatText] in
theorem windowText_injective {body : Str} {l l' o o' : Option Nat}
    (h : body ++ limitClause l ++ offsetClause o = body ++ limitClause l' ++
      offsetClause o') :
    l = l' ∧ o = o' := by
  rw [append_assoc, append_assoc] at h
  replace h := append_cancel_left h
  have hstart : ∀ (n : Nat) (o o' : Option Nat),
      limitClause (some n) ++ offsetClause o ≠ offsetClause o' := by
    intro n o o' heq
    -- the second character is the `L` of `LIMIT` or the `O` of `OFFSET`
    cases o' with
    | none =>
      have hsecond : some 'L' = none := congrArg (·[1]?) heq
      cases hsecond
    | some m =>
      have hsecond : some 'L' = some 'O' := congrArg (·[1]?) heq
      exact absurd hsecond (by decide)
  cases l with
  | none =>
    cases l' with
    | none => exact ⟨rfl, offsetClause_injective h⟩
    | some n => exact absurd h.symm (hstart n o' o)
  | some n =>
    cases l' with
    | none => exact absurd h (hstart n o o')
    | some m =>
      unfold limitClause at h
      rw [append_assoc, append_assoc] at h
      have hrest := append_cancel_left h
      have hdigits := congrArg (List.takeWhile Char.isDigit) hrest
      rw [takeWhile_ofNat, takeWhile_ofNat] at hdigits
      have hparsed := congrArg Str.parseDigits hdigits
      rw [Str.parseDigits_ofNat, Str.parseDigits_ofNat] at hparsed
      rw [hdigits] at hrest
      exact ⟨hparsed, offsetClause_injective (append_cancel_left hrest)⟩

end Texts

end Fuse.Connectors
