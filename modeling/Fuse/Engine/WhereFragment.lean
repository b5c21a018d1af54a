import Fuse.Engine.Pushdown

/-!
# Conditions that are translated exactly

The conditions over columns and literals of `translate_expr`, as a syntax of
their own: connectives, parentheses, comparisons in either order, `IS NULL`,
`IN`, `BETWEEN` and `LIKE`.  Their literals are texts, truth values, NULL and
integers of 64 bits with a sign in front or without one.
-/

namespace Fuse.Engine

open Foundation Fuse.Core

/-- Decimal digits whose value is below `2 ^ 63`. -/
structure IntegerLiteral where
  digits : Str
  long : Bool
  value : Nat
  reads : Str.parseDigits digits = some value
  inRange : value < 2 ^ 63

inductive Literal where
  | string (s : Str)
  | doubleQuoted (s : Str)
  | boolean (b : Bool)
  | null
  | integer (n : IntegerLiteral)
  | negative (n : IntegerLiteral)

namespace Literal

def toSql : Literal → SqlExpr
  | string s => .value (.singleQuotedString s)
  | doubleQuoted s => .value (.doubleQuotedString s)
  | boolean b => .value (.boolean b)
  | null => .value .null
  | integer n => .value (.number n.digits n.long)
  | negative n => .unaryOp .minus (.value (.number n.digits n.long))

def scalar : Literal → ScalarValue
  | string s => .utf8 s
  | doubleQuoted s => .utf8 s
  | boolean b => .boolean b
  | null => .null
  | integer n => .int64 (Int64.ofInt n.value)
  | negative n => .int64 (Int64.ofInt (-n.value))

end Literal

inductive SqlComparison where
  | eq | notEq | lt | ltEq | gt | gtEq

namespace SqlComparison

def operator : SqlComparison → BinaryOperator
  | eq => .eq
  | notEq => .notEq
  | lt => .lt
  | ltEq => .ltEq
  | gt => .gt
  | gtEq => .gtEq

def meaning : SqlComparison → ComparisonOp
  | eq => .eq
  | notEq => .neq
  | lt => .lt
  | ltEq => .lte
  | gt => .gt
  | gtEq => .gte

end SqlComparison

inductive Condition where
  | and (left right : Condition)
  | or (left right : Condition)
  | not (inner : Condition)
  | parens (inner : Condition)
  | columnFirst (column : Ident) (op : SqlComparison) (value : Literal)
  | literalFirst (value : Literal) (op : SqlComparison) (column : Ident)
  | isNull (column : Ident)
  | isNotNull (column : Ident)
  | inList (column : Ident) (list : List Literal) (negated : Bool)
  | between (column : Ident) (negated : Bool) (low high : Literal)
  | like (ignoreCase negated : Bool) (column : Ident) (pattern : Literal)

namespace Condition

def toSql : Condition → SqlExpr
  | and l r => .binaryOp l.toSql .and r.toSql
  | or l r => .binaryOp l.toSql .or r.toSql
  | not e => .unaryOp .not e.toSql
  | parens e => .nested e.toSql
  | columnFirst column op value =>
    .binaryOp (.identifier column) op.operator value.toSql
  | literalFirst value op column =>
    .binaryOp value.toSql op.operator (.identifier column)
  | isNull column => .isNull (.identifier column)
  | isNotNull column => .isNotNull (.identifier column)
  | inList column list negated =>
    .inList (.identifier column) (list.map Literal.toSql) negated
  | between column negated low high =>
    .between (.identifier column) negated low.toSql high.toSql
  | like false negated column pattern =>
    .like negated false (.identifier column) pattern.toSql none
  | like true negated column pattern =>
    .iLike negated false (.identifier column) pattern.toSql none

section Truth

variable {C : Type} [Unicode] (M : CellModel C) (row : Str → C)

def truth : Condition → Truth
  | and l r => l.truth.and r.truth
  | or l r => l.truth.or r.truth
  | not e => e.truth.not
  | parens e => e.truth
  | columnFirst column op value =>
    M.compare op.meaning (row column.value) (M.ofScalar value.scalar)
  | literalFirst value op column =>
    M.compare op.meaning (M.ofScalar value.scalar) (row column.value)
  | isNull column => .ofBool (M.isNull (row column.value))
  | isNotNull column => .ofBool (!M.isNull (row column.value))
  | inList column list negated =>
    negatedTruth negated (Truth.any (list.map fun v =>
      M.compare .eq (row column.value) (M.ofScalar v.scalar)))
  | between column negated low high =>
    negatedTruth negated
      ((M.compare .gte (row column.value) (M.ofScalar low.scalar)).and
        (M.compare .lte (row column.value) (M.ofScalar high.scalar)))
  | like ignoreCase negated column pattern =>
    negatedTruth negated (M.like ignoreCase [] (row column.value)
      (M.ofScalar pattern.scalar))

end Truth

end Condition

/-! ## Literals are read as they are written -/

theorem IntegerLiteral.parseI64_digits (n : IntegerLiteral) :
    Str.parseI64 n.digits = some (Int64.ofInt n.value) := by
  have hsign : ∀ c rest, c.isDigit = false → n.digits ≠ c :: rest := by
    intro c rest hc heq
    have hreads := n.reads
    simp [heq, Str.parseDigits, hc] at hreads
  have hrange := n.inRange
  rw [Str.parseI64_unsigned (fun rest => hsign _ rest (by decide))
    (fun rest => hsign _ rest (by decide)), n.reads, Option.bind_some,
    if_pos (by omega)]

theorem Literal.scalarOf_toSql {C : Type} (M : SqlModel C) (leaves : Leaves C)
    (row : Str → C) (v : Literal) :
    scalarOf M leaves row v.toSql = M.ofScalar v.scalar := by
  cases v with
  | integer n => exact M.number_int _ _ n.parseI64_digits
  | negative n =>
    have hne : Int64.ofInt n.value ≠ Int64.minValue := by
      intro heq
      have hint := congrArg Int64.toInt heq
      have hrange := n.inRange
      have hmin : Int64.minValue.toInt < 0 := by decide
      rw [Int64.toInt_ofInt_of_le (by simp) (by simp; omega)] at hint
      exact Int.not_lt.mpr (Int.natCast_nonneg n.value) (hint ▸ hmin)
    simp only [toSql, scalar, scalarOf, SqlModel.literal, Int64.ofInt_neg,
      M.number_int _ _ n.parseI64_digits, M.negate_int _ hne]
  | _ => rfl

section Literals

variable [FloatOps]

theorem Literal.sqlExprToScalar_toSql (v : Literal) :
    sqlExprToScalar v.toSql = some v.scalar := by
  cases v with
  | integer n =>
    simp [toSql, scalar, sqlExprToScalar, valueToScalar, n.parseI64_digits]
  | negative n =>
    simp [toSql, scalar, sqlExprToScalar, valueToScalar, n.parseI64_digits,
      negateScalar, Int64.ofInt_neg]
  | _ => rfl

end Literals

/-! ## Exactness -/

theorem satisfies_meaning {C : Type} [Unicode] (M : CellModel C)
    (op : SqlComparison) (a b : C) :
    M.satisfies op.meaning a b = M.compare op.meaning a b := by cases op <;> rfl

theorem satisfies_converse {C : Type} [Unicode] (M : CellModel C)
    (op : SqlComparison) (a b : C) :
    M.satisfies op.meaning.converse a b = M.compare op.meaning b a := by
  rw [← M.compare_converse op.meaning b a]
  cases op <;> rfl

theorem whereTruth_toSql {C : Type} [Unicode] (M : SqlModel C)
    (leaves : Leaves C) (row : Str → C) (e : Condition) :
    whereTruth M leaves row e.toSql = e.truth M.toCellModel row := by
  have hliteral := Literal.scalarOf_toSql M leaves row
  induction e with
  | and l r ihl ihr | or l r ihl ihr =>
    simp [Condition.toSql, whereTruth, Condition.truth, ihl, ihr]
  | not e ih | parens e ih =>
    simp [Condition.toSql, whereTruth, Condition.truth, ih]
  | columnFirst column op value =>
    cases op <;>
      simp [Condition.toSql, SqlComparison.operator, whereTruth, scalarOf,
        hliteral, Condition.truth, SqlComparison.meaning]
  | literalFirst value op column =>
    cases op <;>
      simp [Condition.toSql, SqlComparison.operator, whereTruth, scalarOf,
        hliteral, Condition.truth, SqlComparison.meaning]
  | isNull column | isNotNull column => rfl
  | inList column list negated =>
    simp [Condition.toSql, whereTruth, scalarOf, hliteral, Condition.truth,
      Function.comp_def]
  | between column negated low high =>
    simp [Condition.toSql, whereTruth, scalarOf, hliteral, Condition.truth]
  | like ignoreCase negated column pattern =>
    cases ignoreCase <;>
      simp [Condition.toSql, whereTruth, scalarOf, hliteral, Condition.truth,
        escapeChars]

section Exact

variable [FloatOps] [SqlParser]

theorem translateComparison_columnFirst (column : Ident) (op : SqlComparison)
    (value : Literal) :
    translateComparison (.identifier column) op.operator value.toSql =
      some (.comparison column.value op.meaning value.scalar) := by
  cases op <;>
    simp [translateComparison, SqlComparison.operator, SqlComparison.meaning,
      comparisonOp, exprToColumnName, value.sqlExprToScalar_toSql]

theorem translateComparison_literalFirst (value : Literal) (op : SqlComparison)
    (column : Ident) :
    translateComparison value.toSql op.operator (.identifier column) =
      some (.comparison column.value op.meaning.converse value.scalar) := by
  have hliteral : exprToColumnName value.toSql = none := by cases value <;> rfl
  have hcolumn : exprToColumnName (.identifier column) = some column.value :=
    rfl
  cases op <;>
    simp [translateComparison, SqlComparison.operator, SqlComparison.meaning,
      comparisonOp, hliteral, hcolumn, value.sqlExprToScalar_toSql, reversedOp,
      ComparisonOp.converse]

private theorem translateExpr_operator {op : SqlComparison} (l r : SqlExpr) :
    translateExpr (.binaryOp l op.operator r) =
      translateComparison l op.operator r := by
  cases op <;> rfl

variable [Unicode]

/-- Every condition has a filter, and the filter has its truth value on every
row, whatever the cells are. -/
theorem translateExpr_condition (e : Condition) :
    ∃ f, translateExpr e.toSql = some f ∧
    ∀ {C : Type} (M : CellModel C) (row : Str → C),
        M.filterTruth row f = e.truth M row := by
  induction e with
  | and l r ihl ihr =>
    obtain ⟨fl, hl, htl⟩ := ihl
    obtain ⟨fr, hr, htr⟩ := ihr
    refine ⟨.and fl fr, by simp [Condition.toSql, translateExpr, hl, hr,
      translateAnd], fun M row => ?_⟩
    simp [CellModel.filterTruth, Condition.truth, htl, htr]
  | or l r ihl ihr =>
    obtain ⟨fl, hl, htl⟩ := ihl
    obtain ⟨fr, hr, htr⟩ := ihr
    refine ⟨.or fl fr, by simp [Condition.toSql, translateExpr, hl, hr,
      translateOr], fun M row => ?_⟩
    simp [CellModel.filterTruth, Condition.truth, htl, htr]
  | not e ih =>
    obtain ⟨f, hf, ht⟩ := ih
    refine ⟨.not f, by simp [Condition.toSql, translateExpr, hf],
      fun M row => ?_⟩
    simp [CellModel.filterTruth, Condition.truth, ht]
  | parens e ih =>
    obtain ⟨f, hf, ht⟩ := ih
    exact ⟨f, hf, fun M row => ht M row⟩
  | columnFirst column op value =>
    refine ⟨_, (translateExpr_operator _ _).trans
      (translateComparison_columnFirst column op value), fun M row => ?_⟩
    exact satisfies_meaning M op _ _
  | literalFirst value op column =>
    refine ⟨_, (translateExpr_operator _ _).trans
      (translateComparison_literalFirst value op column), fun M row => ?_⟩
    exact satisfies_converse M op _ _
  | isNull column => exact ⟨.isNull column.value, rfl, fun _ _ => rfl⟩
  | isNotNull column => exact ⟨.isNotNull column.value, rfl, fun _ _ => rfl⟩
  | inList column list negated =>
    refine ⟨negateIf negated (.inList column.value (list.map Literal.scalar)),
      by simp [Condition.toSql, translateExpr, translateIn,
        exprToColumnName, Literal.sqlExprToScalar_toSql], fun M row => ?_⟩
    cases negated <;>
      simp [negateIf, CellModel.filterTruth, Condition.truth, negatedTruth,
        Function.comp_def]
  | between column negated low high =>
    refine ⟨negateIf negated (.and (.comparison column.value .gte low.scalar)
      (.comparison column.value .lte high.scalar)),
    by simp [Condition.toSql, translateExpr,
      translateBetween, exprToColumnName, Literal.sqlExprToScalar_toSql],
    fun M row => ?_⟩
    cases negated <;> rfl
  | like ignoreCase negated column pattern =>
    refine ⟨negateIf negated (.comparison column.value
      (if ignoreCase then .iLike else .like)
      pattern.scalar), ?_, fun M row => ?_⟩
    · cases ignoreCase <;>
        simp [Condition.toSql, translateExpr, translateLike,
          exprToColumnName, pattern.sqlExprToScalar_toSql]
    · cases ignoreCase <;> cases negated <;> rfl

end Exact

end Fuse.Engine
