import Fuse.Engine.ReadBack

/-!
# PostgreSQL text read back

The text `subquery_to_sql` of the PostgreSQL connector writes for a sub-query is
read back by `sql_to_subquery` as the sub-query, for every filter tree.
-/

namespace Fuse.Engine

open Foundation Fuse.Core Connectors Parse List

/-! ## Names, operators and scalars -/

theorem nameText_quoteIdent (name : Str) : NameText (quoteIdent name) name :=
  ⟨_, lexes_quoted rfl rfl name, rfl⟩

theorem nameText_quoteTable {name : Str}
    (hparen : Str.startsWith "(" name = false)
    (hquote : Str.startsWith "\"" name = false) :
    NameText (quoteTable name) name := by
  rw [quoteTable, hparen, hquote]
  exact nameText_quoteIdent name

/-! ## Aggregates -/

/-- `COUNT(*)`, or one of the six functions of a field. -/
def PlainAggregate (a : AggregationExpr) : Prop :=
  match a.function with
  | .count => True
  | .countDistinct | .sum | .avg | .min | .max => a.field.isSome = true
  | _ => False

section Aggregates

variable [Unicode] [SqlParser] {levels : Nat} [StandardSql levels] [FloatText]

include levels in
omit [FloatText] in
theorem tryExtractAgg_call {fn lower : Str} {function : AggFunction}
    (args : FunctionArguments SqlExpr) (aliasName : Str)
    (hlower : toLowercase fn = lower)
    (hfunction : aggFunction lower args.isDistinct = some function) :
    tryExtractAgg (callOf { value := fn } args) (some aliasName) = some {
        function
        field :=
          aggField { name := [.identifier { value := fn }], args := args }
        aliasName } := by
  have hname := StandardSql.plainName fn
  simp only [tryExtractAgg, callOf, hname, hlower, hfunction]
  rfl

omit [FloatText] in
private theorem itemWritten_field {lower field : Str} {function : AggFunction}
    (fn aliasName : Str)
    (hopen : LexesAll (fn ++ "(") [.word { value := fn }, .lparen])
    (hlower : toLowercase fn = lower)
    (hfunction : aggFunction lower false = some function) :
    ItemWritten levels ([],
      [{ function := function, field := some field, aliasName := aliasName }])
      (fn ++ "(" ++ quoteIdent field ++ ")" ++ " AS " ++
          quoteIdent aliasName) := by
  obtain ⟨id, hid, rfl⟩ := nameText_quoteIdent field
  have hclose : LexesAll ")" [.rparen] := rfl
  exact itemWritten_call ((hopen.thenText hid).thenAll hclose rfl)
    (fun _ => functionArgs_name id)
    (forall_mem_singleton.mpr rfl) (nameText_quoteIdent aliasName)
    (tryExtractAgg_call (.list none _) aliasName hlower hfunction)

theorem itemWritten_aggregate {a : AggregationExpr} (ha : PlainAggregate a) :
    ItemWritten levels ([], [a]) (Postgres.aggregateText a) := by
  obtain ⟨function, field, aliasName⟩ := a
  have hlower : ∀ fn : Str, fn.all (·.toNat < 128) = true →
      toLowercase fn = fn.map Char.toLower :=
    fun _ => Unicode.toLowercase_of_all
  cases field with
  | none =>
    -- only `COUNT` has a form without a field
    cases function with
    | count =>
      have hcall : LexesAll "COUNT(*)"
          (.word { value := "COUNT" } :: .lparen :: ([.star] ++ [.rparen])) :=
        rfl
      exact itemWritten_call hcall (fun _ _ _ => rfl) nofun
        (nameText_quoteIdent aliasName)
        (tryExtractAgg_call (.list none [.wildcard]) aliasName
          (hlower "COUNT" rfl) rfl)
    | countDistinct | sum | avg | min | max => cases ha
    | approxCountDistinct | approxPercentile p => exact ha.elim
  | some field =>
    cases function with
    | count =>
      exact itemWritten_field "COUNT" aliasName rfl (hlower _ rfl) rfl
    | sum => exact itemWritten_field "SUM" aliasName rfl (hlower _ rfl) rfl
    | avg => exact itemWritten_field "AVG" aliasName rfl (hlower _ rfl) rfl
    | min => exact itemWritten_field "MIN" aliasName rfl (hlower _ rfl) rfl
    | max => exact itemWritten_field "MAX" aliasName rfl (hlower _ rfl) rfl
    | countDistinct =>
      obtain ⟨id, hid, rfl⟩ := nameText_quoteIdent field
      have hopen : LexesAll "COUNT(DISTINCT " [.word { value := "COUNT" },
          .lparen, .keyword .DISTINCT] := rfl
      have hclose : LexesAll ")" [.rparen] := rfl
      exact itemWritten_call ((hopen.thenText hid).thenAll hclose rfl)
        (fun _ => functionArgs_distinct id) (forall_mem_singleton.mpr rfl)
          (nameText_quoteIdent aliasName)
        (tryExtractAgg_call (.list (some .distinct) _) aliasName
          (hlower "COUNT" rfl) rfl)
    | approxCountDistinct | approxPercentile p => exact ha.elim

end Aggregates

/-! ## Sub-queries -/

structure Printable (q : SubQuery) : Prop where
  table : Str.startsWith "(" q.table = false ∧
    Str.startsWith "\"" q.table = false
  projections : "*".toList ∉ q.projections
  aggregations : ∀ a ∈ q.aggregations, PlainAggregate a
  filter : ∀ f ∈ q.filter, FilterLeaves PlainOp (fun _ => True) PlainScalar f
  having : ∀ f ∈ q.having, FilterLeaves PlainOp (fun _ => True) PlainScalar f
  /-- The field is a `u64`. -/
  limit : ∀ n ∈ q.limit, n < 2 ^ 64
  offset : q.offset = none
  passthrough : q.passthrough = none

def readBack (q : SubQuery) : SubQuery :=
  if q.aggregations.isEmpty then q else { q with projections := q.groupBy }

section RoundTrip

variable [Unicode] [SqlParser] {levels : Nat} [StandardSql levels]
  [FloatOps] [FloatText]

omit [FloatOps] in
private theorem selectText_written {q : SubQuery} (hq : Printable q) :
    SelectWritten levels (readBack q).projections q.aggregations
    (Postgres.selectText q) := by
  by_cases hagg : q.aggregations = []
  · have hback : (readBack q).projections = q.projections := by
      rw [readBack, hagg]
      rfl
    rw [hback, hagg, Postgres.selectText, hagg]
    by_cases hproj : q.projections = []
    · rw [hproj]
      exact selectWritten_star
    rw [if_neg (by simp), if_pos (by simpa using hproj)]
    refine selectWritten_names hproj fun n hn => ?_
    have hne : n ≠ "*".toList := fun heq => hq.projections (heq ▸ hn)
    rw [if_neg hne]
    exact nameText_quoteIdent n
  · have hback : (readBack q).projections = q.groupBy := by
      rw [readBack, if_neg (by simpa using hagg)]
    rw [hback, Postgres.selectText, if_pos (by simpa using hagg)]
    have hitems : SelectWritten levels q.groupBy q.aggregations
      (Str.joinWith ", "
        ((q.groupBy.map Sum.inl ++ q.aggregations.map Sum.inr).map
          (Sum.elim quoteIdent Postgres.aggregateText))) := by
      refine selectWritten_items (Sum.elim (fun g => ([g], [])) fun a =>
        ([], [a])) (by simp [hagg])
        ?_ ?_ ?_
      · intro i hi
        cases i with
        | inl g => exact itemWritten_name (nameText_quoteIdent g)
        | inr a =>
          have ha : a ∈ q.aggregations := by simpa using hi
          exact itemWritten_aggregate (hq.aggregations a ha)
      · simp [flatMap_map]
      · simp [flatMap_map]
    rwa [map_append, map_map, map_map] at hitems

theorem postgres_round_trip {q : SubQuery} (hq : Printable q)
    (hshallow : Shallow levels q) :
    sqlToSubquery (Postgres.subqueryToSql q) = .ok (readBack q) := by
  have hfilter : ∀ f : FilterExpr,
    FilterLeaves PlainOp (fun _ => True) PlainScalar f →
      FilterText (filterToSql Postgres.wording f) f := fun f hf =>
    filterText_plain (fun n _ => nameText_quoteIdent n)
      (fun _ => scalarText_plain) hf
  have hread := sqlToSubquery_written (w := Postgres.wording) (q := q)
    (selectText_written hq) (nameText_quoteTable hq.table.1 hq.table.2)
    hshallow (fun f hf => hfilter f (hq.filter f hf))
      (fun g _ => nameText_quoteIdent g)
    (fun f hf => hfilter f (hq.having f hf))
    (fun s _ => nameText_quoteIdent s.field) hq.limit
    (by rw [hq.offset]; nofun) hq.passthrough
  have htext : Postgres.subqueryToSql q = "SELECT " ++ Postgres.selectText q ++
      " FROM " ++ quoteTable q.table ++ middleClauses Postgres.wording q ++
      limitClause q.limit ++ offsetClause q.offset := by
    rw [hq.offset]
    exact (append_nil _).symm
  have hback : readBack q =
      { q with projections := (readBack q).projections } := by
    unfold readBack
    split <;> rfl
  rw [htext, hback]
  exact hread

end RoundTrip

section Example

attribute [local instance] asciiUnicode integersOnly

def quotedFilter : FilterExpr :=
  .and (.comparison "say \"who\"" .neq (.utf8 "O'Hara"))
    (.not (.or (.inList "qty" [.int64 (-5), .null])
      (.comparison "note" .like (.utf8 "%AND%"))))

def totalsByRegion : SubQuery where
  table := "orders"
  filter := some quotedFilter
  aggregations := [⟨.countDistinct, some "customer", "customers"⟩,
    ⟨.count, none, "n"⟩]
  groupBy := ["region".toList]
  having := some (.comparison "n" .gt (.int64 1))
  sort := [⟨"n", true⟩]
  limit := some 10

theorem postgres_round_trip_totals :
    letI := standardParser 20
    letI : FloatText := ⟨fun _ => []⟩
    sqlToSubquery (Postgres.subqueryToSql totalsByRegion) =
      .ok { totalsByRegion with projections := ["region".toList] } := by
  let := standardParser 20
  let _ : FloatText := ⟨fun _ => []⟩
  have := standardParser_standard 20
  have hprintable : Printable totalsByRegion := {
    table := ⟨rfl, rfl⟩
    projections := nofun
    aggregations := by
      intro a ha
      rcases mem_pair.mp ha with rfl | rfl
      · rfl
      · trivial
    filter := by rintro f ⟨rfl⟩; decide
    having := by rintro f ⟨rfl⟩; decide
    limit := by rintro n ⟨rfl⟩; decide
    offset := rfl
    passthrough := rfl }
  have hshallow : Shallow 20 totalsByRegion := {
    filter := by rintro f ⟨rfl⟩; decide
    having := by rintro f ⟨rfl⟩; decide }
  exact postgres_round_trip hprintable hshallow

/-- So many conditions on one column, as the translation of a text without
parentheses nests them. -/
def conditions : Nat → FilterExpr
  | 0 => .isNotNull "a"
  | n + 1 => .and (conditions n) (.isNotNull "a")

theorem filterDepth_conditions (n : Nat) : filterDepth (conditions n) = n := by
  induction n with
  | zero => rfl
  | succ n ih => simp [conditions, filterDepth, ih]

theorem conditions_leaves (n : Nat) :
    FilterLeaves PlainOp (fun _ => True) PlainScalar (conditions n) := by
  induction n with
  | zero => trivial
  | succ n ih => exact ⟨ih, trivial⟩

def manyConditions : SubQuery where
  table := "t"
  filter := some (conditions 60)

theorem manyConditions_printable : Printable manyConditions where
  table := ⟨rfl, rfl⟩
  projections := nofun
  aggregations := nofun
  filter := by
    rintro f ⟨rfl⟩
    exact conditions_leaves 60
  having := nofun
  limit := nofun
  offset := rfl
  passthrough := rfl

theorem subqueryToSql_filter [FloatText] (table : Str) (f : FilterExpr) :
    Postgres.subqueryToSql { table, filter := some f } = "SELECT " ++ "*" ++
      " FROM " ++ quoteTable table ++ " WHERE " ++
      filterToSql Postgres.wording f := by
  have hclauses : middleClauses Postgres.wording { table, filter := some f } =
      " WHERE " ++ filterToSql Postgres.wording f := by
    simp only [middleClauses, filterClause, listClause, map_nil, isEmpty_nil,
      if_true, append_nil]
  refine (append_nil _).trans ((congrArg (_ ++ ·) hclauses).trans ?_)
  exact (append_assoc _ _ _).symm

theorem sqlToSubquery_refused {levels : Nat} {sql : Str}
    (h : standardParse levels sql = none) :
    letI := standardParser levels
    sqlToSubquery sql =
      .error (.queryFailed "SQL parse error: recursion limit exceeded") := by
  let := standardParser levels
  have hparse : (standardParser levels).parseSql sql =
      .error "recursion limit exceeded" := by
    unfold standardParser
    dsimp only
    rw [h]
  rw [sqlToSubquery, hparse]
  rfl

theorem many_conditions_refused :
    letI := standardParser 20
    letI : FloatText := ⟨fun _ => []⟩
    Printable manyConditions ∧
      sqlToSubquery (Postgres.subqueryToSql manyConditions) =
        .error (.queryFailed "SQL parse error: recursion limit exceeded") := by
  let := standardParser 20
  let _ : FloatText := ⟨fun _ => []⟩
  have htext : FilterText (filterToSql Postgres.wording (conditions 60))
      (conditions 60) :=
    filterText_plain (fun n _ => nameText_quoteIdent n)
      (fun _ => scalarText_plain) (conditions_leaves 60)
  have hdeep : textHeight 20 ≤ filterDepth (conditions 60) := by
    rw [filterDepth_conditions]
    decide
  refine ⟨manyConditions_printable, sqlToSubquery_refused ?_⟩
  exact (congrArg (standardParse 20) (subqueryToSql_filter "t" _)).trans
    (standardParse_deep (nameText_quoteTable rfl rfl) htext hdeep)

end Example

end Fuse.Engine
