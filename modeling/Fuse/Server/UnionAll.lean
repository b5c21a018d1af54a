import Fuse.Foundation.Bags
import Fuse.Server.Answers
import Fuse.Server.Degraded
import Mathlib.Algebra.Order.BigOperators.Group.List
import Mathlib.Algebra.Order.Group.Nat

/-!
# `UNION ALL`

A `UNION ALL` is run as one sub-query on every table its text names: that of
its first branch, or no clauses at all when there are more than two branches.
It gives the rows of its branches exactly when, on every table, the branches
that read it take together from each row what that sub-query takes.
-/

namespace Fuse.Server

open Foundation Fuse.Core Engine List

/-- One `SELECT` of a `UNION ALL`: its text, its tree, the table it reads. -/
structure Branch where
  text : Str
  select : Select
  ref : TableRef

def branchTables (branches : List Branch) : List TableRef :=
  branches.foldl (fun refs b => addRef refs (some b.ref)) []

/-- The tree of `first UNION ALL …`; set operations nest to the left. -/
def unionTree (first : Branch) (rest : List Branch) : SetExpr :=
  rest.foldl (fun tree b => .setOperation tree (.select b.select))
    (.select first.select)

section Tables

/-! ## The tables of a text -/

variable {refs : List TableRef}

theorem mem_addRef {r x : TableRef} :
    x ∈ addRef refs (some r) ↔ x ∈ refs ∨ x = r := by
  unfold addRef
  dsimp only
  split
  · next hr =>
      exact ⟨Or.inl, fun h => h.elim id fun h => h ▸ hr⟩
  · simp

theorem addRef_nodup (h : refs.Nodup) (r : TableRef) :
    (addRef refs (some r)).Nodup := by
  unfold addRef
  dsimp only
  split
  · exact h
  next hr => exact nodup_append.mpr ⟨h, by simp, by
    intro a ha b hb hab
    cases mem_singleton.mp hb
    exact hr (hab ▸ ha)⟩

theorem foldl_addRef (branches : List Branch) (h : refs.Nodup) :
    let tables := branches.foldl (fun refs b => addRef refs (some b.ref)) refs
    tables.Nodup ∧ ∀ r, r ∈ tables ↔ r ∈ refs ∨ r ∈ branches.map (·.ref) := by
  induction branches generalizing refs with
  | nil => simp [h]
  | cons b branches ih =>
    obtain ⟨hnodup, hmem⟩ := ih (addRef_nodup h b.ref)
    refine ⟨hnodup, fun r => ?_⟩
    rw [foldl_cons, hmem, mem_addRef, map_cons, mem_cons, or_assoc]

theorem branchTables_nodup (branches : List Branch) :
    (branchTables branches).Nodup :=
  (foldl_addRef branches nodup_nil).1

theorem mem_branchTables {branches : List Branch} {r : TableRef} :
    r ∈ branchTables branches ↔ ∃ b ∈ branches, b.ref = r := by
  rw [branchTables, (foldl_addRef branches nodup_nil).2]
  simp

theorem branchTables_head (first : Branch) (rest : List Branch) :
    ∃ more, branchTables (first :: rest) = first.ref :: more := by
  suffices h : ∀ refs : List TableRef, ∃ more,
    rest.foldl (fun refs b => addRef refs (some b.ref))
        (first.ref :: refs) = first.ref :: more by
    simpa [branchTables, addRef] using h []
  induction rest with
  | nil => exact fun refs => ⟨refs, rfl⟩
  | cons b rest ih =>
    intro refs
    rw [foldl_cons]
    unfold addRef
    dsimp only
    split
    · exact ih refs
    · exact ih (refs ++ [b.ref])

end Tables

section Plan

variable [Unicode] [FloatOps] [SqlParser]

/-! ## The sub-query that is pushed -/

def Branch.subQuery (b : Branch) : SubQuery :=
  match queryToSubquery (.mk (.select b.select) none none) with
  | .ok sq => { sq with table := b.ref.table }
  | .error _ => { table := b.ref.table }

def pushedQuery (first : Branch) (rest : List Branch) : SubQuery :=
  if rest.length ≤ 1 then first.subQuery else { table := first.ref.table }

/-- What the parser and the scanners make of the text of a `UNION ALL`. -/
structure UnionAllOf (text : Str) (first : Branch) (rest : List Branch) :
    Prop where
  several : rest ≠ []
  union : isUnionQuery text = true
  tree : SqlParser.parseSql text = .ok
    [.query (.mk (unionTree first rest) none none)]
  sources : parseSqlSources text = .ok (branchTables (first :: rest))
  aloneTree : ∀ b ∈ first :: rest, SqlParser.parseSql b.text =
    .ok [.query (.mk (.select b.select) none none)]
  aloneSource : ∀ b ∈ first :: rest, parseSqlSources b.text = .ok [b.ref]
  plain : ∀ b ∈ first :: rest, b.subQuery.Plain

theorem Branch.subQuery_window (b : Branch) :
    b.subQuery.limit = none ∧ b.subQuery.offset = none ∧
      b.subQuery.passthrough = none ∧ b.subQuery.table = b.ref.table := by
  unfold Branch.subQuery queryToSubquery
  cases htable : extractTableName b.select.tables with
  | error e => simp [Query.body, plannedSelect, htable, bind, Except.bind]
  | ok table =>
    simp [Query.body, plannedSelect, htable, bind, Except.bind, pure,
      Except.pure, Query.limitClause]

omit [Unicode] [FloatOps] [SqlParser] in
theorem plannedSelect_unionTree (first : Branch) (rest : List Branch) :
    plannedSelect (unionTree first rest) =
      if rest.length ≤ 1 then .ok first.select
      else .error (.queryFailed "expected SELECT in UNION") := by
  have hsnoc : ∀ (init : List Branch) (b : Branch),
    unionTree first (init ++ [b]) =
        .setOperation (unionTree first init) (.select b.select) := by
    intro init b
    simp [unionTree]
  rcases eq_nil_or_concat rest with rfl | ⟨init, b, rfl⟩
  · rfl
  rw [concat_eq_append, hsnoc]
  rcases eq_nil_or_concat init with rfl | ⟨init, c, rfl⟩
  · rfl
  · rw [concat_eq_append, hsnoc, if_neg (by simp)]
    rfl

theorem buildSubQuery_tree {text : Str} {first : Branch} {rest : List Branch}
    (h : SqlParser.parseSql text = .ok
      [.query (.mk (unionTree first rest) none none)]) :
    buildSubQuery text "sql" first.ref.table =
        .ok (pushedQuery first rest) := by
  have hplanned := plannedSelect_unionTree first rest
  unfold buildSubQuery sqlText
  rw [if_neg (by decide)]
  simp only [pure_bind, sqlToSubquery, h, pushedQuery]
  by_cases hone : rest.length ≤ 1
  · rw [if_pos hone] at hplanned ⊢
    have hsame : queryToSubquery (.mk (unionTree first rest) none none) =
        queryToSubquery (.mk (.select first.select) none none) := by
      simp only [queryToSubquery, Query.body, hplanned]
      rfl
    rw [hsame, Branch.subQuery]
    cases queryToSubquery (.mk (.select first.select) none none) <;> rfl
  · rw [if_neg hone] at hplanned ⊢
    simp only [queryToSubquery, Query.body, hplanned]
    rfl

theorem pushedQuery_plain {text : Str} {first : Branch} {rest : List Branch}
    (h : UnionAllOf text first rest) : (pushedQuery first rest).Plain := by
  unfold pushedQuery
  split
  · exact h.plain first mem_cons_self
  · exact ⟨rfl, rfl, rfl, rfl⟩

theorem pushedQuery_window (first : Branch) (rest : List Branch) :
    (pushedQuery first rest).limit = none ∧
    (pushedQuery first rest).offset = none ∧
      (pushedQuery first rest).passthrough = none ∧
      (pushedQuery first rest).table = first.ref.table := by
  unfold pushedQuery
  split
  · exact first.subQuery_window
  · exact ⟨rfl, rfl, rfl, rfl⟩

end Plan

section Runs

variable {V : Type} [ArrowKernels V]

/-! ## Rows without their tag -/

def untagged (b : RecordBatch V) : List (Row V) :=
  if b.schema.getLast? = some datasourceField then b.rows.map List.dropLast
  else b.rows

variable {batches : List (RecordBatch V)} {text : Str} {first : Branch}
  {rest : List Branch}

omit [ArrowKernels V] in
theorem untagged_fields [Unicode] (T : TableModel V) {sq : SubQuery}
    (h : ∀ b ∈ batches, b.schema = T.fields sq) :
    batches.flatMap untagged = batches.flatMap (·.rows) := by
  apply flatMap_congr
  intro b hb
  have hlast : b.schema.getLast? ≠ some datasourceField := by
    intro hlast
    have hmem := mem_of_getLast? hlast
    rw [h b hb] at hmem
    obtain ⟨name, -, hfield⟩ := mem_map.mp hmem
    exact Bool.noConfusion (congrArg Field.nullable hfield)
  rw [untagged, if_neg hlast]

omit [ArrowKernels V] in
theorem untagged_tagRow {schema : Schema}
    (h : ∀ b ∈ batches, b.schema = schema ++ [datasourceField]) :
    batches.flatMap untagged =
      (batches.flatMap (·.rows)).map List.dropLast := by
  rw [map_flatMap]
  apply flatMap_congr
  intro b hb
  rw [untagged, h b hb, getLast?_concat, if_pos rfl]

variable [Unicode] [FloatOps] [SqlParser]

/-! ## Running the branches -/

def runText (env : Env V) (text : Str) : Exec V (FederatedResult V) := do
  let refs ← Exec.liftFallible (parseSqlSources text)
  executeRefs env text "sql" refs none

def rowsOf (env : Env V) (s : ExecState V) (text : Str) : List (Row V) :=
  match (runText env text s).result with
  | .ok fed => fed.batches.flatMap untagged
  | .error _ => []

/-- A `UNION ALL` succeeds with the rows of its branches, in any order. -/
def ConcatenatesBranches (env : Env V) (s : ExecState V) (text : Str)
    (branches : List Branch) : Prop :=
  ∃ fed, (runText env text s).result = .ok fed ∧
    (fed.batches.flatMap untagged).Perm (branches.flatMap fun b =>
      rowsOf env s b.text)

theorem ConcatenatesBranches.rows_perm {env : Env V} {s : ExecState V}
    {branches : List Branch} (h : ConcatenatesBranches env s text branches) :
    (rowsOf env s text).Perm (branches.flatMap fun b =>
      rowsOf env s b.text) := by
  obtain ⟨fed, hfed, hperm⟩ := h
  rwa [rowsOf, hfed]

theorem runText_result (env : Env V) (s : ExecState V) {refs : List TableRef}
    (h : parseSqlSources text = .ok refs) : (runText env text s).result =
      (executeRefs env text "sql" refs none s).result := by
  simp [runText, Exec.liftFallible, h, bind, Traced.lift]

variable {env : Env V} {s : ExecState V} {T : TableModel V}
  {tables : Core.Tables V}

theorem rowsOf_branch {b : Branch} (hholds : env.Holds T tables)
    (hexternal : s.External [b.ref]) (hplain : b.subQuery.Plain)
    (htree : SqlParser.parseSql b.text = .ok
      [.query (.mk (.select b.select) none none)])
    (hsource : parseSqlSources b.text = .ok [b.ref]) :
    rowsOf env s b.text = (tables b.ref.datasource b.ref.table).filterMap
    (T.pick b.subQuery) := by
  obtain ⟨hlimit, hoffset, hrange, htable⟩ := b.subQuery_window
  have hsame : singleSubQuery none b.subQuery = b.subQuery := by
    rw [singleSubQuery, Option.none_or]
  have hsingle : SqlParser.parseSql b.text =
    .ok [.query (.mk (unionTree b []) none none)] := htree
  have hbuilt : buildSubQuery b.text "sql" b.ref.table = .ok b.subQuery :=
    buildSubQuery_tree hsingle
  obtain ⟨fed, hfed, hschema, hrows, -⟩ :=
    hholds.single hexternal hbuilt none (hsame.symm ▸ hplain)
  rw [hsame] at hschema hrows
  rw [rowsOf, runText_result env s hsource]
  simp only [executeRefs, hfed]
  rw [untagged_fields T hschema, hrows]
  simp [TableModel.rows, hlimit, hoffset, htable]

def capped (sources : List TableRef) (rows : List (Row V)) : List (Row V) :=
  if sources.length = 1 then rows else rows.take fanoutLimit

theorem rows_unionAll (h : UnionAllOf text first rest)
    (hholds : env.Holds T tables)
    (hexternal : s.External (branchTables (first :: rest))) :
    ∃ fed, (runText env text s).result = .ok fed ∧
    fed.batches.flatMap untagged =
        (branchTables (first :: rest)).flatMap fun r =>
          capped (branchTables (first :: rest))
            ((tables r.datasource r.table).filterMap
              (T.pick (pushedQuery first rest))) := by
  have hplain := pushedQuery_plain h
  obtain ⟨hlimit, hoffset, hrange, htable⟩ := pushedQuery_window first rest
  rw [runText_result env s h.sources]
  obtain ⟨more, htables⟩ := branchTables_head first rest
  rw [htables] at hexternal ⊢
  cases more with
  | nil =>
    have hsame : singleSubQuery none (pushedQuery first rest) =
        pushedQuery first rest := by
      rw [singleSubQuery, Option.none_or]
    obtain ⟨fed, hfed, hschema, hrows, -⟩ := hholds.single hexternal
      (buildSubQuery_tree h.tree) none (hsame.symm ▸ hplain)
    rw [hsame] at hschema hrows
    refine ⟨fed, hfed, ?_⟩
    rw [untagged_fields T hschema, hrows]
    simp [TableModel.rows, hlimit, hoffset, htable, capped]
  | cons second more =>
    have hbase : unionBase text "sql" (first.ref :: second :: more) =
        .ok (pushedQuery first rest) := by
      simp only [unionBase, buildSubQuery_tree h.tree, Fallible.orElse]
    have hsub : ∀ r, (sourceSubQuery (pushedQuery first rest) r).Plain := by
      intro r
      simp only [sourceSubQuery, pushDown]
      constructor <;> simp [hplain.aggregations, hplain.sort]
    have hpick : ∀ r, T.rows (sourceSubQuery (pushedQuery first rest) r)
        (tables r.datasource r.table) = ((tables r.datasource r.table).filterMap
            (T.pick (pushedQuery first rest))).take fanoutLimit := by
      intro r
      simp only [sourceSubQuery, pushDown, TableModel.rows, hlimit]
      rfl
    have hfields : ∀ r ∈ first.ref :: second :: more,
        T.fields (sourceSubQuery (pushedQuery first rest) r) =
          T.fields (pushedQuery first rest) := by
      intro r _
      simp [sourceSubQuery, pushDown, TableModel.fields, TableModel.selected]
    obtain ⟨fed, hfed, hschema, hrows, -⟩ := hholds.union hexternal hbase
      (fun r _ => hsub r) hfields
    refine ⟨fed, ?_, ?_⟩
    · simp only [executeRefs, h.union, Bool.or_true, if_true]
      exact hfed
    · rw [untagged_tagRow hschema, hrows, map_flatMap]
      apply flatMap_congr
      intro r _
      have htable' : (sourceSubQuery (pushedQuery first rest) r).table =
        r.table := rfl
      rw [htable', hpick, capped, if_neg (by simp), map_map]
      exact (map_congr_left fun row _ => by simp [tagRow]).trans (map_id _)

/-! ## When the rows are those of the branches -/

/-- The branches over a table take from each of its rows, together, what the
pushed sub-query takes. -/
def TakesTheSame (T : TableModel V) (first : Branch) (rest : List Branch) :
    Prop :=
  ∀ r ∈ branchTables (first :: rest), ∀ row : TableRow V,
    (T.pick (pushedQuery first rest) row).toList.Perm
      (((first :: rest).filter (·.ref = r)).filterMap fun b =>
        T.pick b.subQuery row)

def WithinCap (T : TableModel V) (tables : Core.Tables V) (first : Branch)
    (rest : List Branch) : Prop :=
  1 < (branchTables (first :: rest)).length →
    ∀ r ∈ branchTables (first :: rest), (tables r.datasource r.table).countP
        (T.keeps (pushedQuery first rest)) ≤ fanoutLimit

omit [ArrowKernels V] [FloatOps] [SqlParser] in
theorem length_filterMap_pick (T : TableModel V) (sq : SubQuery)
    (table : List (TableRow V)) :
    (table.filterMap (T.pick sq)).length = table.countP (T.keeps sq) := by
  rw [length_filterMap_eq_countP]
  congr 1
  funext row
  unfold TableModel.pick
  split <;> simp_all

theorem rowsOf_branches (h : UnionAllOf text first rest)
    (hholds : env.Holds T tables)
    (hexternal : s.External (branchTables (first :: rest))) :
    ((first :: rest).flatMap fun b => rowsOf env s b.text) =
      (first :: rest).flatMap fun b =>
        (tables b.ref.datasource b.ref.table).filterMap
            (T.pick b.subQuery) := by
  apply flatMap_congr
  intro b hb
  refine rowsOf_branch hholds ?_ (h.plain b hb) (h.aloneTree b hb)
    (h.aloneSource b hb)
  intro r hr
  cases mem_singleton.mp hr
  exact hexternal b.ref (mem_branchTables.mpr ⟨b, hb, rfl⟩)

omit [ArrowKernels V] in
theorem TakesTheSame.perm (h : TakesTheSame T first rest)
    (tables : Core.Tables V) : ((first :: rest).flatMap fun b =>
        (tables b.ref.datasource b.ref.table).filterMap
        (T.pick b.subQuery)).Perm
      ((branchTables (first :: rest)).flatMap fun r =>
        (tables r.datasource r.table).filterMap
        (T.pick (pushedQuery first rest))) := by
  refine (Bags.flatMap_perm_flatMap_filter (·.ref) _
    (branchTables_nodup (first :: rest))
    fun b hb => mem_branchTables.mpr ⟨b, hb, rfl⟩).trans ?_
  refine List.Perm.flatMap_left _ fun r hr => ?_
  have href : (((first :: rest).filter (·.ref = r)).flatMap fun b =>
      (tables b.ref.datasource b.ref.table).filterMap (T.pick b.subQuery)) =
      ((first :: rest).filter (·.ref = r)).flatMap fun b =>
        (tables r.datasource r.table).flatMap fun row =>
          (T.pick b.subQuery row).toList := by
    apply flatMap_congr
    intro b hb
    have hbr : b.ref = r := by simpa using (mem_filter.mp hb).2
    rw [hbr, filterMap_eq_flatMap_toList]
  rw [href, filterMap_eq_flatMap_toList]
  refine (Bags.flatMap_flatMap_perm _ _ _).trans ?_
  refine List.Perm.flatMap_left _ fun row _ => ?_
  rw [← filterMap_eq_flatMap_toList]
  exact (h r hr row).symm

omit [ArrowKernels V] in
theorem capped_perm_iff (T : TableModel V) (tables : Core.Tables V)
    (first : Branch)
    (rest : List Branch) : ((branchTables (first :: rest)).flatMap fun r =>
        capped (branchTables (first :: rest))
        ((tables r.datasource r.table).filterMap
            (T.pick (pushedQuery first rest)))).Perm
      ((branchTables (first :: rest)).flatMap fun r =>
        (tables r.datasource r.table).filterMap
        (T.pick (pushedQuery first rest))) ↔ WithinCap T tables first rest := by
  obtain ⟨more, hhead⟩ := branchTables_head first rest
  have hpos : (branchTables (first :: rest)).length ≠ 0 := by simp [hhead]
  constructor
  · intro hperm hseveral
    by_contra hover
    obtain ⟨r, hr, hmore⟩ : ∃ r ∈ branchTables (first :: rest),
        fanoutLimit < (tables r.datasource r.table).countP
        (T.keeps (pushedQuery first rest)) := by
      simpa using hover
    -- one table is cut short and none gains a row
    refine absurd hperm.length_eq (Nat.ne_of_lt ?_)
    rw [length_flatMap, length_flatMap]
    apply sum_lt_sum
    · intro q _
      rw [capped, if_neg (by omega), length_take]
      exact Nat.min_le_right _ _
    · refine ⟨r, hr, ?_⟩
      rw [capped, if_neg (by omega), length_take, length_filterMap_pick]
      omega
  · intro hcap
    apply List.Perm.of_eq
    apply flatMap_congr
    intro r hr
    unfold capped
    split
    · rfl
    rename_i hseveral
    apply take_of_length_le
    rw [length_filterMap_pick]
    exact hcap (by omega) r hr

def onlyRow (r : TableRef) (row : TableRow V) : Core.Tables V :=
  fun ds table => if (⟨ds, table⟩ : TableRef) = r then [row] else []

omit [ArrowKernels V] [Unicode] [FloatOps] [SqlParser] in
private theorem flatMap_onlyRow {r : TableRef} (row : TableRow V) {α : Type}
    (ref : α → TableRef) (f : α → TableRow V → Option (Row V)) (as : List α) :
    (as.flatMap fun a =>
      (onlyRow r row (ref a).datasource (ref a).table).filterMap (f a)) =
        (as.filter (ref · = r)).filterMap fun a => f a row := by
  induction as with
  | nil => rfl
  | cons a as ih =>
    rw [flatMap_cons, ih]
    by_cases ha : ref a = r
    · cases hf : f a row <;> simp [onlyRow, ha, hf]
    · simp [onlyRow, ha]

/--
A `UNION ALL` returns the rows of its branches, for all contents of the tables
that stay within the cap and for no others, if and only if the branches take
from every table, together, what the pushed sub-query takes.
-/
theorem union_all_concatenates_iff (T : TableModel V) {text : Str}
    {first : Branch} {rest : List Branch} (h : UnionAllOf text first rest) :
    (∀ (env : Env V) (s : ExecState V) (tables : Core.Tables V),
      env.Holds T tables → s.External (branchTables (first :: rest)) →
      (ConcatenatesBranches env s text (first :: rest) ↔
        WithinCap T tables first rest)) ↔ TakesTheSame T first rest := by
  constructor
  · intro hall r hr row
    have hholds := Env.holds_ofTables T (onlyRow r row)
    have hexternal := knowing_external (V := V) (branchTables (first :: rest))
    have hcap : WithinCap T (onlyRow r row) first rest := by
      intro _ q _
      refine (countP_le_length).trans ?_
      unfold onlyRow
      split <;> simp [fanoutLimit]
    obtain ⟨fed, hfed, hperm⟩ := (hall _ _ _ hholds hexternal).mpr hcap
    obtain ⟨fed', hfed', hrows⟩ := rows_unionAll h hholds hexternal
    rw [hfed] at hfed'
    cases hfed'
    rw [hrows, rowsOf_branches h hholds hexternal] at hperm
    have hpushed := ((capped_perm_iff T _ first rest).mpr hcap).symm.trans hperm
    have hbranches := flatMap_onlyRow (r := r) row Branch.ref
      (fun b => T.pick b.subQuery) (first :: rest)
    have htables := flatMap_onlyRow (r := r) row id
      (fun _ => T.pick (pushedQuery first rest)) (branchTables (first :: rest))
    rw [hbranches] at hpushed
    refine (List.Perm.of_eq (Eq.trans ?_ htables.symm)).trans hpushed
    have hone : (branchTables (first :: rest)).filter (id · = r) = [r] := by
      have hbeq := filter_beq (l := branchTables (first :: rest)) r
      rw [count_eq_one_of_mem (branchTables_nodup _) hr] at hbeq
      exact hbeq
    rw [hone]
    cases T.pick (pushedQuery first rest) row <;> rfl
  · intro hsame env s tables hholds hexternal
    obtain ⟨fed, hfed, hrows⟩ := rows_unionAll h hholds hexternal
    have hperm := hsame.perm tables
    rw [← capped_perm_iff, ConcatenatesBranches,
      rowsOf_branches h hholds hexternal]
    constructor
    · rintro ⟨fed', hfed', hconcat⟩
      rw [hfed] at hfed'
      cases hfed'
      exact hrows ▸ hconcat.trans hperm
    · intro hcapped
      exact ⟨fed, hfed, hrows ▸ hcapped.trans hperm.symm⟩

end Runs

section Example

attribute [local instance] asciiUnicode integersOnly textCells

def textComparison : CellModel (Option Str) where
  isNull := Option.isNone
  ofScalar
    | .utf8 s => some s
    | _ => none
  compare op a b := match a, b with
    | some a, some b => scalarCompare.byOrder op (compare a b)
    | _, _ => .unknown
  text := id
  compare_converse op a b := by
    cases a <;> cases b <;> try rfl
    next a b =>
      dsimp only
      rw [← byOrder_converse op, ← Std.OrientedCmp.eq_swap]
  text_utf8 _ := rfl

def numberTables : TableModel Str where
  cells := textComparison
  columns := ["n"]
  typeOf _ := .utf8

def numbersBranch (ds : Str) : Branch where
  text := "SELECT n FROM " ++ ds ++ ".t"
  select := numbersOf (ds ++ ".t")
  ref := ⟨ds, "t"⟩

def knownBranches (others : List (Str × Query)) : List (Str × Query) :=
  others ++ [numbersBranch "a", numbersBranch "b"].map fun b =>
    (b.text, .mk (.select b.select) none none)

def twiceText : Str := "SELECT n FROM a.t UNION ALL SELECT n FROM a.t"

def twiceQuery : Query :=
  .mk (.setOperation (.select (numbersOf "a.t")) (.select (numbersOf "a.t")))
    none none

theorem union_all_drops_repeated_branch :
    letI := tableParser (knownBranches [(twiceText, twiceQuery)])
    rowsOf twoTables registeredAB twiceText = [[some "2".toList]] ∧
      rowsOf twoTables registeredAB (numbersBranch "a").text =
        [[some "2".toList]] ∧
      ¬ ConcatenatesBranches twoTables registeredAB twiceText
        [numbersBranch "a", numbersBranch "a"] := by
  let := tableParser (knownBranches [(twiceText, twiceQuery)])
  have htwice : rowsOf twoTables registeredAB twiceText =
    [[some "2".toList]] := by decide +kernel
  have halone : rowsOf twoTables registeredAB (numbersBranch "a").text =
      [[some "2".toList]] := by decide +kernel
  refine ⟨htwice, halone, fun hconcat => ?_⟩
  have hlength := hconcat.rows_perm.length_eq
  rw [htwice, flatMap_cons, flatMap_cons, halone] at hlength
  exact absurd hlength (by decide)

theorem both_unionAllOf :
    letI := tableParser (knownBranches [(bothText, bothQuery)])
    UnionAllOf bothText (numbersBranch "a") [numbersBranch "b"] := by
  let := tableParser (knownBranches [(bothText, bothQuery)])
  exact {
    several := by simp
    union := by decide +kernel
    tree := rfl
    sources := rfl
    aloneTree := by
      intro b hb
      rcases mem_pair.mp hb with rfl | rfl <;> rfl
    aloneSource := by
      intro b hb
      rcases mem_pair.mp hb with rfl | rfl <;> rfl
    plain := by
      intro b hb
      rcases mem_pair.mp hb with rfl | rfl <;> exact ⟨rfl, rfl, rfl, rfl⟩ }

theorem union_all_concatenates_both :
    letI := tableParser (knownBranches [(bothText, bothQuery)])
    ConcatenatesBranches (Env.ofTables numberTables fun _ _ =>
      [fun _ => some "1"]) registeredAB
      bothText [numbersBranch "a", numbersBranch "b"] := by
  let := tableParser (knownBranches [(bothText, bothQuery)])
  have hsame : TakesTheSame numberTables (numbersBranch "a")
      [numbersBranch "b"] := by
    intro r hr row
    rcases mem_pair.mp hr with rfl | rfl <;> exact List.Perm.refl _
  have hexternal : registeredAB.External
      (branchTables [numbersBranch "a", numbersBranch "b"]) := by
    intro r hr
    rcases mem_pair.mp hr with rfl | rfl <;> rfl
  refine ((union_all_concatenates_iff numberTables both_unionAllOf).mpr hsame
    _ _ _ (Env.holds_ofTables numberTables _) hexternal).mpr ?_
  intro _ r _
  exact countP_le_length.trans (by simp [fanoutLimit])

end Example

end Fuse.Server
