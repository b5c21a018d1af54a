import Fuse.Foundation.TopN
import Fuse.Foundation.Windows
import Fuse.Server.Fanout
import Fuse.Server.PostProcess

/-!
# Pushing `ORDER BY` and `LIMIT` to the sources

A fan-out whose sources each return only their first rows, followed by the
global sort and the limit, has the sort keys of the first rows of everything.
Rows are compared by the key tuple of `ORDER BY`; a key that is not a column
is ignored, as the endpoint ignores it.
-/

namespace Fuse.Server

open Foundation Fuse.Core Engine List

section Keys

variable {V : Type}

/-! ## Sort keys of a row -/

def orderTuple (schema : Schema) (keys : List OrderKey) (row : Row V) : Row V :=
  RecordBatch.keyOf ((resolveOrder schema keys).map (·.1)) row

def orderKey (schema : Schema) (keys : List OrderKey) (row : Row V) :
    List (ColumnKey V) :=
  tupleKey ((resolveOrder schema keys).map (·.2)) (orderTuple schema keys row)

theorem orderKey_cons (schema : Schema) (key : OrderKey) (keys : List OrderKey)
    (row : Row V) :
    orderKey schema (key :: keys) row =
      match schema.indexOf key.column with
      | none => orderKey schema keys row
      | some i => columnKey key.descending row[i]?.join ::
          orderKey schema keys row := by
  cases h : schema.indexOf key.column with
  | none => simp [orderKey, orderTuple, resolveOrder, h]
  | some i =>
    simp [orderKey, orderTuple, resolveOrder, h, RecordBatch.keyOf, tupleKey]

variable {schema : Schema} {keys : List OrderKey}

theorem orderTuple_of_orderKey {a b : Row V}
    (h : orderKey schema keys a = orderKey schema keys b) :
    orderTuple schema keys a = orderTuple schema keys b := by
  refine tupleKey_injective ?_ ?_ h <;> simp [orderTuple, length_keyOf]

theorem map_orderTuple_of_map_orderKey {as bs : List (Row V)}
    (h : as.map (orderKey schema keys) = bs.map (orderKey schema keys)) :
    as.map (orderTuple schema keys) = bs.map (orderTuple schema keys) := by
  induction as generalizing bs with
  | nil => simp_all
  | cons a as ih =>
    cases bs with
    | nil => simp at h
    | cons b bs =>
      simp only [map_cons, cons.injEq] at h ⊢
      exact ⟨orderTuple_of_orderKey h.1, ih h.2⟩

theorem indexOf_append (schema : Schema) (f : Field) (name : Str) :
    Schema.indexOf (schema ++ [f]) name = (schema.indexOf name).or
        (if f.name = name then some schema.length else none) := by
  simp only [Schema.indexOf, findIdx?_append]
  by_cases h : f.name = name <;> simp [h]

theorem lt_of_indexOf {name : Str} {i : Nat}
    (h : schema.indexOf name = some i) : i < schema.length :=
  (findIdx?_eq_some_iff_findIdx_eq.mp h).1

theorem resolveOrder_bound (schema : Schema) (keys : List OrderKey) :
    ∀ key ∈ resolveOrder schema keys, key.1 < schema.length := by
  intro key hkey
  obtain ⟨o, -, ho⟩ := mem_filterMap.mp hkey
  obtain ⟨i, hi, rfl⟩ := Option.map_eq_some_iff.mp ho
  exact lt_of_indexOf hi

variable [ArrowKernels V] [LinearOrder V]

theorem orderKey_tagRow_le (keys : List OrderKey) (ds : Str) {a b : Row V}
    (ha : a.length = schema.length) (hb : b.length = schema.length)
    (h : orderKey schema keys a ≤ orderKey schema keys b) :
    orderKey (schema ++ [datasourceField]) keys (tagRow ds a) ≤
      orderKey (schema ++ [datasourceField]) keys (tagRow ds b) := by
  induction keys with
  | nil => exact le_refl _
  | cons key keys ih =>
    rw [orderKey_cons] at h
    rw [orderKey_cons] at h
    rw [orderKey_cons, orderKey_cons, indexOf_append]
    cases hindex : schema.indexOf key.column with
    | none =>
      simp only [hindex] at h
      rw [Option.none_or]
      split
      · exact ih h
      rename_i i hi
      -- the key is the tag, the last cell of both rows
      split at hi
      · cases hi
        have hcell : ∀ row : Row V, row.length = schema.length →
            (tagRow ds row)[schema.length]?.join =
              some (ArrowKernels.ofText [] ds) := by
          intro row hrow
          simp [tagRow, ← hrow]
        rw [hcell a ha, hcell b hb]
        exact cons_le_cons _ (ih h)
      · cases hi
    | some i =>
      simp only [hindex, Option.some_or] at h ⊢
      have hi := lt_of_indexOf hindex
      have hcell : ∀ row : Row V, row.length = schema.length →
          (tagRow ds row)[i]? = row[i]? := by
        intro row hrow
        exact getElem?_append_left (by omega)
      rw [hcell a ha, hcell b hb]
      rw [Engine.cons_le_cons_iff] at h ⊢
      rcases h with hlt | ⟨heq, hle⟩
      · exact .inl hlt
      · exact .inr ⟨heq, ih hle⟩

end Keys

section Window

variable {V : Type} [ArrowKernels V]

/-! ## The window over batches of one schema -/

theorem rebuild_same {schema : Schema} (hne : schema ≠ []) {rows : List (Row V)}
    (hfits : ∀ row ∈ rows, rowFits schema row = true) :
    rebuild schema (rows.map fun row => (schema.types, row)) =
      [⟨schema, rows, hfits⟩] := by
  have htypes : ((rows.map fun row => (schema.types, row)).all
      fun p => decide (p.1.take schema.length = schema.types)) = true := by
    have hlength : schema.types.length = schema.length := by simp [Schema.types]
    simp [← hlength]
  have hrows : ((rows.map fun row => (schema.types, row)).map
      fun p => p.2.take schema.length) = rows := by
    rw [map_map]
    refine (map_congr_left ?_).trans (map_id rows)
    intro row hrow
    exact take_of_length_le (length_of_rowFits (hfits row hrow)).le
  unfold rebuild
  simp only [htypes, hrows, if_true]
  rw [RecordBatch.tryNew_ok ⟨schema, rows, hfits⟩ hne]

theorem takeWindow_same {schema : Schema} (hne : schema ≠ [])
    {batches : List (RecordBatch V)}
    (h : ∀ b ∈ batches, b.schema = schema) (skip : Nat) (count : Option Nat) :
    ∃ page, takeWindow skip count batches = .ok page ∧
    (∀ b ∈ page, b.schema = schema) ∧
      page.flatMap (·.rows) = Windows.limited count
      ((batches.flatMap (·.rows)).drop skip) := by
  have hall : (batches.flatMap fun b =>
      b.rows.map fun row => (b.schema.types, row)) =
      (batches.flatMap (·.rows)).map fun row => (schema.types, row) := by
    rw [map_flatMap]
    apply flatMap_congr
    intro b hb
    rw [h b hb]
  have hfits : ∀ n, ∀ row ∈ ((batches.flatMap (·.rows)).drop skip).take n,
      rowFits schema row = true := by
    intro n row hrow
    obtain ⟨b, hb, hrow⟩ :=
      mem_flatMap.mp (mem_of_mem_drop (mem_of_mem_take hrow))
    exact h b hb ▸ b.fits row hrow
  have hwidth : ∀ n, ((((batches.flatMap (·.rows)).drop skip).take n).map
      fun row => (schema.types, row)).any
        (fun p => decide (p.1.length < schema.length)) = false := by
    intro n
    have hlength : schema.types.length = schema.length := by simp [Schema.types]
    rw [any_map]
    simp [Function.comp_def, hlength]
  unfold takeWindow
  split
  · rename_i hwhole
    simp only [Bool.and_eq_true, decide_eq_true_eq, Option.isNone_iff_eq_none]
      at hwhole
    obtain ⟨rfl, rfl⟩ := hwhole
    exact ⟨batches, rfl, h, rfl⟩
  · simp only [hall, ← map_drop, ← map_take, length_map]
    rw [Windows.limited_eq_take]
    cases batches with
    | nil => exact ⟨[], rfl, by simp, by simp⟩
    | cons first rest =>
      simp only [h first (by simp), isEmpty_map, hwidth, Bool.false_eq_true,
        if_false]
      split
      · rename_i hempty
        rw [List.isEmpty_iff] at hempty
        exact ⟨[], rfl, by simp, hempty.symm⟩
      · exact ⟨_, congrArg Except.ok (rebuild_same hne (hfits _)), by simp,
          by simp⟩

end Window

section Order

variable {V : Type} [ArrowKernels V] [LinearOrder V]

/-! ## The global sort -/

theorem applyOrderBy_sorted (hsort : LexsortSorts V) {schema : Schema}
    {batches : List (RecordBatch V)} (h : ∀ b ∈ batches, b.schema = schema)
    (keys : List OrderKey) :
    ∃ sorted, applyOrderBy keys batches = .ok sorted ∧
    (∀ b ∈ sorted, b.schema = schema) ∧
      (sorted.flatMap (·.rows)).Perm (batches.flatMap (·.rows)) ∧
      (sorted.flatMap (·.rows)).Pairwise fun a b =>
        orderKey schema keys a ≤ orderKey schema keys b := by
  cases hbatches : batches with
  | nil => exact ⟨[], rfl, by simp, by simp, by simp⟩
  | cons first rest =>
    rw [← hbatches]
    have hfirst : first.schema = schema := h first (by simp [hbatches])
    simp only [applyOrderBy, hbatches, hfirst]
    cases hkeys : resolveOrder schema keys with
    | nil =>
      -- no key is a column: nothing is sorted, and all keys are empty
      refine ⟨_, rfl, hbatches ▸ h, Perm.refl _, ?_⟩
      rw [pairwise_iff_forall_sublist]
      intro a b _
      simp [orderKey, hkeys, tupleKey]
    | cons key rest' =>
      obtain ⟨sorted, heq, hschema, hperm, hpairwise⟩ :=
        sortBatches_sorted hsort
        (by simp [hbatches]) h (by simp [hkeys])
          (resolveOrder_bound schema keys)
      rw [hkeys, hbatches] at heq
      refine ⟨[sorted], ?_, by simpa using hschema, ?_, ?_⟩
      · simp only [heq]
        rfl
      · simpa [hbatches] using hperm
      · rw [flatMap_singleton]
        exact hpairwise

end Order

section Exact

variable {V : Type} [ArrowKernels V] [LinearOrder V]

/-! ## The first rows of each source -/

def sortKeys (sq : SubQuery) : List OrderKey :=
  sq.sort.map fun key => { column := key.field, descending := key.descending }

/--
A source answers a sub-query with the first of its filtered rows, in the order
and up to the limit that the sub-query asks for.
-/
structure AnswersTop (schema : Schema) (sq : SubQuery)
    (filtered : List (Row V)) (batches : List (RecordBatch V)) : Prop where
  schemas : ∀ b ∈ batches, b.schema = schema
  widths : ∀ row ∈ filtered, row.length = schema.length
  rows : ∃ sorted : List (Row V), sorted.Perm filtered ∧
      (sorted.Pairwise fun a b =>
      orderKey schema (sortKeys sq) a ≤ orderKey schema (sortKeys sq) b) ∧
    batches.flatMap (·.rows) =
      match sq.limit with
      | some m => sorted.take m
      | none => sorted

/-- The sort key of a row with its tag. -/
abbrev taggedKey (schema : Schema) (base : SubQuery) :
    Row V → List (ColumnKey V) :=
  orderKey (schema ++ [datasourceField]) (sortKeys base)

def perSourceLimit (base : SubQuery) : Nat :=
  min fanoutLimit (base.limit.getD fanoutLimit)

theorem sourceSubQuery_limit (base : SubQuery) (r : TableRef) :
    (sourceSubQuery base r).limit = some (perSourceLimit base) := by
  unfold sourceSubQuery perSourceLimit pushDown
  cases base.limit with
  | none | some m => simp [pushLimit]

private theorem sortKeys_sourceSubQuery (base : SubQuery) (r : TableRef) :
    sortKeys (sourceSubQuery base r) = sortKeys base := by
  simp [sortKeys, sourceSubQuery, pushDown]

theorem isTop_answerRows {schema : Schema} {base : SubQuery} {r : TableRef}
    {filtered : List (Row V)} {batches : List (RecordBatch V)} (ds : Str)
    (h : AnswersTop schema (sourceSubQuery base r) filtered batches) :
    TopN.IsTop (perSourceLimit base)
    ((answerRows ds (.ok batches)).map (taggedKey schema base))
      ((filtered.map (tagRow ds)).map (taggedKey schema base)) := by
  obtain ⟨sorted, hperm, hsorted, hrows⟩ := h.rows
  rw [sortKeys_sourceSubQuery] at hsorted
  rw [sourceSubQuery_limit] at hrows
  refine ⟨(sorted.map (tagRow ds)).map (taggedKey schema base),
    ⟨(hperm.map _).map _, ?_⟩, ?_⟩
  · rw [pairwise_map, pairwise_map]
    refine hsorted.imp_of_mem ?_
    intro a b ha hb hab
    exact orderKey_tagRow_le _ ds (h.widths a (hperm.mem_iff.mp ha))
      (h.widths b (hperm.mem_iff.mp hb)) hab
  · simp [answerRows, hrows]

theorem forall₂_isTop {schema : Schema} {base : SubQuery}
    {filtered : TableRef → List (Row V)}
    {answers : List (TableRef × Except ConnectorError (List (RecordBatch V)))}
    (h : ∀ a ∈ answers, ∃ batches, a.2 = .ok batches ∧
      AnswersTop schema (sourceSubQuery base a.1)
      (filtered a.1) batches) : Forall₂ (TopN.IsTop (perSourceLimit base))
      (answers.map fun a => (answerRows a.1.datasource a.2).map
        (taggedKey schema base))
      (answers.map fun a =>
        ((filtered a.1).map (tagRow a.1.datasource)).map
        (taggedKey schema base)) := by
  rw [forall₂_map_left_iff, forall₂_map_right_iff, forall₂_same]
  intro a ha
  obtain ⟨batches, hok, htop⟩ := h a ha
  rw [hok]
  exact isTop_answerRows a.1.datasource htop

variable [Unicode] [FloatOps] [SqlParser]

/-! ## Exactness -/

omit [LinearOrder V] [SqlParser] in
theorem shapeResult_ordered (env : Env V) {query : Str} {clauses : PlanClauses}
    (hdistinct : clauses.isDistinct = false) (fed : FederatedResult V)
    (hgroup : parseGroupBy query = .ok [])
    (hhaving : parseHaving query = .ok none) :
    shapeResult env query clauses fed =
      applyOrderBy clauses.orderBy fed.batches := by
  have hlast : ∀ batches : List (RecordBatch V),
      applyDistinct false batches = .ok batches := by
    intro batches
    cases batches <;> rfl
  simp only [shapeResult, mergedResult_plain env hgroup hhaving, hdistinct,
    hlast, bind, Except.bind]
  cases applyOrderBy clauses.orderBy fed.batches <;> rfl

/--
Top-N pushdown is exact.  `whole` is everything the sources hold after their
filters, in order; the page that the fan-out, the global sort and the limit
produce has the sort keys of its first `n` rows.
-/
theorem topN_pushdown_exact (hsort : LexsortSorts V) (env : Env V)
    {query format : Str} {refs : List TableRef} {base : SubQuery}
    {s : ExecState V} {schema : Schema} {keys : List OrderKey} {n : Nat}
    {clauses : PlanClauses} (hclauses : clauses =
      { orderBy := keys, limit := some n, isDistinct := false, offset := 0 })
    (hparsed : parseClauses query = .ok clauses)
    (hbase : unionBase query format refs = .ok base)
    (hregistered : ∀ r ∈ refs, (s.registry.get r.datasource).isSome)
    (hkeys : sortKeys base = keys) (hn : n ≤ fanoutLimit)
    (hlimit : ∀ m, base.limit = some m → n ≤ m)
    {filtered : TableRef → List (Row V)}
    (hsources : ∀ a ∈ sourceAnswers env s base refs,
      ∃ batches, a.2 = .ok batches ∧
        AnswersTop schema (sourceSubQuery base a.1) (filtered a.1) batches)
    {whole : List (Row V)}
    (hwhole : whole.Perm
      (refs.flatMap fun r => (filtered r).map (tagRow r.datasource)))
    (hsorted : whole.Pairwise fun a b =>
      orderKey (schema ++ [datasourceField]) keys a ≤
        orderKey (schema ++ [datasourceField]) keys b) :
    ∃ fed shaped page, (executeUnion env query format refs s).result = .ok fed ∧
      (do applyOrderBy (← parseClauses query).orderBy fed.batches) =
      .ok shaped ∧ (parseGroupBy query = .ok [] → parseHaving query = .ok none →
        shapeResult env query clauses fed = .ok shaped) ∧
      takeWindow (effectiveOffset clauses {})
        (effectivePageSize clauses {}) shaped = .ok page ∧
      (page.flatMap (·.rows)).map
        (orderTuple (schema ++ [datasourceField]) keys) =
        (whole.take n).map (orderTuple (schema ++ [datasourceField]) keys) := by
  subst hclauses hkeys
  obtain ⟨-, hrefs⟩ := taskResults_eq_sourceAnswers env base hregistered
  -- every source answers with batches of the common schema
  obtain ⟨fed, hfed, hfedSchema, hfedRows, -⟩ :=
    executeUnion_answered hbase hregistered
    fun a ha => (hsources a ha).imp fun _ h => ⟨h.1, h.2.schemas⟩
  obtain ⟨shaped, hshaped, hshapedSchema, hperm, hpairwise⟩ :=
    applyOrderBy_sorted hsort hfedSchema (sortKeys base)
  obtain ⟨page, hpage, -, hpageRows⟩ :=
    takeWindow_same (by simp) hshapedSchema 0 (some n)
  refine ⟨fed, shaped, page, hfed, ?_, ?_, hpage, ?_⟩
  · rw [hparsed]
    exact hshaped
  · intro hgroup hhaving
    rw [shapeResult_ordered env rfl fed hgroup hhaving]
    exact hshaped
  -- the sort keys of the page, by the exchange argument on sorted lists
  rw [hpageRows, drop_zero, Windows.limited]
  apply map_orderTuple_of_map_orderKey
  have hsmall :
    TopN.SortOf ((shaped.flatMap (·.rows)).map (taggedKey schema base))
      ((sourceAnswers env s base refs).map fun a =>
        (answerRows a.1.datasource a.2).map
        (taggedKey schema base)).flatten := by
    refine ⟨?_, pairwise_map.mpr hpairwise⟩
    rw [← flatMap_def, ← map_flatMap, ← hfedRows]
    exact hperm.map _
  have hlarge : TopN.SortOf (whole.map (taggedKey schema base))
      ((sourceAnswers env s base refs).map fun a =>
        ((filtered a.1).map (tagRow a.1.datasource)).map
        (taggedKey schema base)).flatten := by
    refine ⟨?_, pairwise_map.mpr hsorted⟩
    rw [← flatMap_def, ← map_flatMap]
    refine (hwhole.map _).trans (Perm.of_eq ?_)
    rw [← hrefs, flatMap_map, hrefs]
  have htop := TopN.take_sortOf_flatten (forall₂_isTop hsources) hsmall hlarge
  have hle : n ≤ perSourceLimit base := by
    unfold perSourceLimit
    cases hm : base.limit with
    | none => simpa using hn
    | some m => simpa using ⟨hn, hlimit m hm⟩
  have hcut := congrArg (List.take n) htop
  rw [take_take, take_take, min_eq_left hle] at hcut
  rwa [map_take, map_take]

end Exact

section Example

attribute [local instance] asciiUnicode integersOnly textCells

def newestText : Str :=
  "SELECT n FROM a.t UNION ALL SELECT n FROM b.t ORDER BY n DESC LIMIT 1"

def numbersOf (table : Str) : Select :=
  .mk [.unnamedExpr (.identifier { value := "n" })] (fromTable table) none
    (.expressions []) none

def newestQuery : Query :=
  .mk (.setOperation (.select (numbersOf "a.t")) (.select (numbersOf "b.t")))
    (some (.expressions [⟨.identifier { value := "n" }, some false⟩]))
    (some (.limitOffset (some (.value (.number "1" false))) none))

def newestBase : SubQuery :=
  { table := "t"
    projections := ["n"]
    sort := [⟨"n", true⟩]
    limit := some 1 }

def twoTables : Env Str :=
  { Env.quiet Str with
    execute := fun _ ds _ =>
      .ok [oneCell "n" (if ds = "a" then "2" else "3")] }

def tablesAB : List TableRef := [⟨"a", "t"⟩, ⟨"b", "t"⟩]

def registeredAB : ExecState Str :=
  { registry := [("a", .external), ("b", .external)] }

def numberRows (r : TableRef) : List (Row Str) :=
  if r.datasource = "a" then [[some "1"], [some "2"]] else [[some "3"]]

theorem topN_pushdown_exact_newest :
    letI := tableParser [(newestText, newestQuery)]
    ∃ fed shaped page, (executeUnion twoTables newestText "sql" tablesAB
        registeredAB).result = .ok fed ∧
      shapeResult twoTables newestText ⟨[⟨"n", true⟩], some 1, false, 0⟩ fed =
        .ok shaped ∧
      takeWindow 0 (some 1) shaped = .ok page ∧
      (page.flatMap (·.rows)).map (orderTuple
        ((oneCell "n" "").schema ++ [datasourceField]) [⟨"n", true⟩]) =
      [[some "3".toList]] := by
  let := tableParser [(newestText, newestQuery)]
  have hparsed : parseClauses newestText =
    .ok ⟨[⟨"n", true⟩], some 1, false, 0⟩ := rfl
  have hbase : unionBase newestText "sql" tablesAB = .ok newestBase := rfl
  have hregistered : ∀ r ∈ tablesAB,
    (registeredAB.registry.get r.datasource).isSome := by decide
  have hsources : ∀ a ∈ sourceAnswers twoTables registeredAB newestBase
      tablesAB, ∃ batches, a.2 = .ok batches ∧
        AnswersTop (oneCell "n" "").schema (sourceSubQuery newestBase a.1)
          (numberRows a.1) batches := by
    intro a ha
    rcases mem_pair.mp ha with rfl | rfl
    · exact ⟨_, rfl, by simp [oneCell], by simp [numberRows, oneCell],
        [[some "2"], [some "1"]], by decide, by decide, rfl⟩
    · exact ⟨_, rfl, by simp [oneCell], by simp [numberRows, oneCell],
        [[some "3"]], by decide, by decide, rfl⟩
  have hwhole : Perm [[some "3".toList, some "b".toList],
      [some "2".toList, some "a".toList], [some "1".toList, some "a".toList]]
      (tablesAB.flatMap fun r =>
        (numberRows r).map (tagRow r.datasource)) := by decide
  obtain ⟨fed, shaped, page, hfed, -, hshaped, hpage, hrows⟩ :=
    topN_pushdown_exact textCells_sorts twoTables rfl hparsed hbase hregistered
      rfl (by decide)
    (by simp [newestBase]) hsources hwhole (by decide)
  exact ⟨fed, shaped, page, hfed, hshaped rfl rfl, hpage, hrows⟩

end Example

end Fuse.Server
