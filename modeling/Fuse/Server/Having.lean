import Fuse.Server.Extrema

/-!
# `HAVING` and `LIMIT` of grouped queries

Each source of a grouped query applies the `HAVING` condition and the limit of
the sub-query it is sent to its own groups.  The text behind `GROUP BY` is read
up to its end, so with `HAVING` or `ORDER BY` behind it no group column is
recognised and the rows of the sources are not added up.  The groups of the
result are those of all records if no group has records in two sources.
-/

namespace Fuse.Server

open Foundation Fuse.Core Engine Grouping List

def HavingOp.compare : HavingOp → ℤ → ℤ → Bool
  | .ge, x, y => y ≤ x
  | .le, x, y => x ≤ y
  | .ne, x, y => x ≠ y
  | .gt, x, y => y < x
  | .lt, x, y => x < y
  | .eq, x, y => x = y

/-- `column` is what the text of the condition names the aggregate. -/
structure HavingClause where
  column : Str
  aggregate : Aggregate
  op : HavingOp
  bound : ℤ
  deriving DecidableEq

/-- `columns` are those of a source's answer. -/
structure GroupQuery where
  groupCols : List Str
  columns : List (Item Aggregate)
  having : Option HavingClause
  orderBy : List OrderKey
  limit : Option Nat
  deriving DecidableEq

/-! ## What a sub-query asks for -/

def aggregateOf : AggregationExpr → Option (Str × Aggregate)
  | ⟨.count, none, aliasName⟩ => some (aliasName, .count)
  | ⟨.sum, some column, aliasName⟩ => some (aliasName, .sum column)
  | _ => none

def havingOpOf : ComparisonOp → Option HavingOp
  | .gte => some .ge
  | .lte => some .le
  | .neq => some .ne
  | .gt => some .gt
  | .lt => some .lt
  | .eq => some .eq
  | _ => none

def havingOf (measures : List (Str × Aggregate)) :
    FilterExpr → Option HavingClause
  | .comparison column op (.int64 n) => do
    return ⟨column, ← measures.lookup column, ← havingOpOf op, n.toInt⟩
  | _ => none

/-- The groups a sub-query asks for, if its aggregates are the columns. -/
def askedGroups (columns : List (Item Aggregate)) (sq : SubQuery) :
    Option GroupQuery := do
  let measures ← sq.aggregations.mapM aggregateOf
  guard (columns.filterMap Item.aggregate = measures)
  let having ← sq.having.mapM (havingOf measures)
  return { groupCols := sq.groupBy, columns, having, orderBy := sortKeys sq,
           limit := sq.limit }

namespace GroupQuery

variable (q : GroupQuery)

def items : List (Item Aggregate) := q.columns ++ [.tag]

def grouped : Grouped Aggregate ℤ := countsAndSums q.groupCols q.items

def key : Record → List Str := Record.key q.groupCols

def passes (group : List Record) : Bool :=
  q.having.all fun h => h.op.compare (h.aggregate.value group) h.bound

def passing (records : List Record) : List Record :=
  records.filter fun r => q.passes (groupOf q.key (q.key r) records)

def sourceLimit : Nat := min fanoutLimit (q.limit.getD fanoutLimit)

def clauses : PlanClauses :=
  { orderBy := q.orderBy, limit := q.limit, isDistinct := false, offset := 0 }

theorem mem_passing_keys {k : List Str} {records : List Record} :
    k ∈ (q.passing records).map q.key ↔
      k ∈ records.map q.key ∧ q.passes (groupOf q.key k records) = true := by
  simp only [passing, mem_map, mem_filter]
  constructor
  · rintro ⟨r, ⟨hr, hpass⟩, rfl⟩
    exact ⟨⟨r, hr, rfl⟩, hpass⟩
  · rintro ⟨⟨r, hr, rfl⟩, hpass⟩
    exact ⟨r, ⟨hr, hpass⟩, rfl⟩

section Sources

variable {V : Type} [ArrowKernels V]

def recordOf (k : List Str) : Record where
  text g := k.getD (q.groupCols.idxOf g) []
  number _ := 0

abbrev keyAt (schema : Schema) : Row V → List Str :=
  keyTexts (q.groupCols.filterMap schema.indexOf)

def shownKeys (page : List (RecordBatch V)) : List (List Str) :=
  page.flatMap fun b =>
    b.rows.map (keyTexts (q.groupCols.filterMap b.schema.indexOf))

variable {q} in
theorem shownKeys_eq {batches : List (RecordBatch V)} {schema : Schema}
    (h : ∀ b ∈ batches, b.schema = schema) :
    q.shownKeys batches = (batches.flatMap (·.rows)).map (q.keyAt schema) := by
  rw [shownKeys, map_flatMap]
  exact flatMap_congr fun b hb => by rw [h b hb]

variable [FloatOps]

def GroupRows (X : Numbers ℤ V) (part : List Record) (rows : List (Row V)) :
    Prop :=
  ∃ (tag : Option V) (reps : List Record),
    Represents q.key reps (q.passing part) ∧
    rows = reps.map (q.grouped.answerRow X part tag)

def AnsweredBy [LinearOrder V] (X : Numbers ℤ V) (schema : Schema)
    (part : List Record) (rows : List (Row V)) : Prop :=
  ∃ groups, q.GroupRows X part groups ∧
    TopN.IsTopBy (orderKey schema q.orderBy) q.sourceLimit rows groups

/-- The batches that were fetched hold what the sources answer. -/
structure Collects [LinearOrder V] (X : Numbers ℤ V) (schema : Schema)
    (parts : List (List Record)) (answers : List (List (Row V)))
    (fed : FederatedResult V) : Prop where
  uniform : ∀ b ∈ fed.batches, b.schema = schema
  rows : fed.batches.flatMap (·.rows) = answers.flatten
  answered : List.Forall₂ (q.AnsweredBy X schema) parts answers

def wholeRow (X : Numbers ℤ V) (records : List Record) (k : List Str) : Row V :=
  q.grouped.answerRow X records none (q.recordOf k)

def ExactValues (X : Numbers ℤ V) (parts : List (List Record)) : Prop :=
  ∀ h, q.having = some h → X.Exact h.bound ∧
    ∀ part ∈ parts, ∀ k, X.Exact (h.aggregate.value (groupOf q.key k part))

/-- No source has more groups to show than a fan-out asks for. -/
def Fits (q : GroupQuery) (parts : List (List Record)) : Prop :=
  (∃ n, q.limit = some n ∧ n ≤ fanoutLimit) ∨
    ∀ part ∈ parts, ((q.passing part).map q.key).dedup.length ≤ fanoutLimit

/--
How the endpoint reads the text of the query: no group column is recognised,
and the condition names the column of its aggregate.
-/
structure ReadAs [Unicode] (X : Numbers ℤ V) (schema : Schema) (query : Str) :
    Prop where
  clauses : parseClauses query = .ok q.clauses
  groupBy : ∃ names, parseGroupBy query = .ok names ∧
    names.filterMap schema.indexOf = []
  having : parseHaving query = .ok (q.having.map fun h =>
    ⟨h.column, h.op, X.double h.bound⟩)
  column : ∀ h, q.having = some h → ∃ i label, (schema.findIdx? fun f =>
      toLowercase f.name = toLowercase h.column) = some i ∧
    q.items[i]? = some (.measure label h.aggregate)
  compares : ∀ h, q.having = some h → ∀ n, X.Exact n → X.Exact h.bound →
    h.op.holds (X.double n) (X.double h.bound) = h.op.compare n h.bound

/--
The result shows the groups of all records that satisfy the condition, in the
order of the keys and up to the limit.
-/
def ShowsGroups [LinearOrder V] [Unicode] (X : Numbers ℤ V) (schema : Schema)
    (env : Env V) (query : Str) (parts : List (List Record))
    (fed : FederatedResult V) : Prop :=
  ∃ clauses page whole, parseClauses query = .ok clauses ∧
    (mergedResult env query fed >>= sortedWindow clauses {}) = .ok page ∧
    List.Perm whole (((parts.flatten.map q.key).dedup).filter fun k =>
      q.passes (groupOf q.key k parts.flatten)) ∧
    (whole.Pairwise fun k k' =>
      orderKey schema q.orderBy (q.wholeRow X parts.flatten k) ≤
        orderKey schema q.orderBy (q.wholeRow X parts.flatten k')) ∧
    q.shownKeys page = Windows.limited q.limit whole

/-- Every source holds its part of the records and answers the sub-query it is
sent. -/
structure Answered [LinearOrder V] (X : Numbers ℤ V) (fields : Schema)
    (base : SubQuery) (refs : List TableRef) (parts : List (List Record))
    (env : Env V) (s : ExecState V) : Prop where
  registered : ∀ r ∈ refs, (s.registry.get r.datasource).isSome
  answers : List.Forall₂ (fun part a => ∃ batches, a.2 = .ok batches ∧
      (∀ b ∈ batches, b.schema = fields) ∧
      ∃ asked, askedGroups q.columns (sourceSubQuery base a.1) = some asked ∧
        asked.AnsweredBy X (fields ++ [datasourceField]) part
          (answerRows a.1.datasource a.2)) parts (sourceAnswers env s base refs)

def ReturnsGroups [LinearOrder V] [Unicode] [SqlParser] (X : Numbers ℤ V)
    (fields : Schema) (base : SubQuery) (query format : Str)
    (refs : List TableRef) (parts : List (List Record)) : Prop :=
  ∀ env s, q.Answered X fields base refs parts env s →
    ∃ fed, (executeUnion env query format refs s).result = .ok fed ∧
      q.ShowsGroups X (fields ++ [datasourceField]) env query parts fed

/-- The sub-query the text is read as asks every source for the groups. -/
def SentAs (base : SubQuery) : Prop :=
  ∀ r, askedGroups q.columns (sourceSubQuery base r) =
    some { q with limit := some q.sourceLimit }

variable {q} {X : Numbers ℤ V} {schema : Schema} {parts : List (List Record)}
  {rows : List (Row V)} {groups answers : List (List (Row V))}

/-! ## Rows of groups -/

theorem GroupRows.row_of_mem {part : List Record} (h : q.GroupRows X part rows)
    {row : Row V} (hrow : row ∈ rows) :
    ∃ tag r, row = q.grouped.answerRow X part tag r ∧ q.key r ∈ part.map q.key ∧
      q.passes (groupOf q.key (q.key r) part) = true := by
  obtain ⟨tag, reps, hreps, rfl⟩ := h
  obtain ⟨r, hr, rfl⟩ := mem_map.mp hrow
  exact ⟨tag, r, rfl, q.mem_passing_keys.mp
    ((hreps.keys _).mp (mem_map_of_mem hr))⟩

omit [FloatOps] in
theorem recordOf_text (r : Record) {g : Str} (hg : g ∈ q.groupCols) :
    (q.recordOf (q.key r)).text g = r.text g := by
  have hlt := idxOf_lt_length_iff.mpr hg
  simp [recordOf, key, Record.key, hlt]

omit [FloatOps] in
theorem key_recordOf (r : Record) : q.key (q.recordOf (q.key r)) = q.key r :=
  map_congr_left fun _ hg => recordOf_text r hg

theorem orderKey_answerRow (layout : Layout schema q.items q.groupCols)
    (horder : ∀ key ∈ q.orderBy, key.column ≠ datasourceField.name)
    {part records : List Record} (tag : Option V) {r : Record}
    (hgroup : groupOf q.key (q.key r) records = groupOf q.key (q.key r) part) :
    orderKey schema q.orderBy (q.grouped.answerRow X part tag r) =
      orderKey schema q.orderBy (q.wholeRow X records (q.key r)) := by
  refine congrArg (tupleKey _) (map_congr_left fun i hi => ?_)
  obtain ⟨key, hkey, rfl⟩ := mem_map.mp hi
  obtain ⟨o, ho, hindex⟩ := mem_filterMap.mp hkey
  obtain ⟨i, hfound, rfl⟩ := Option.map_eq_some_iff.mp hindex
  obtain ⟨hlt, hname, -⟩ := findIdx?_eq_some_iff_getElem.mp hfound
  rw [decide_eq_true_eq] at hname
  obtain ⟨item, hitem⟩ : ∃ item, q.items[i]? = some item :=
    ⟨_, getElem?_eq_getElem (layout.length ▸ hlt)⟩
  have hitem' : q.grouped.items[i]? = some item := hitem
  simp only [wholeRow, Grouped.answerRow, getElem?_map, hitem', Option.map_some,
    Option.join_some]
  cases item with
  | key g =>
    have hg : g ∈ q.groupCols := (layout.keys g).mp (mem_of_getElem? hitem)
    exact congrArg (fun t => some (X.text t)) (recordOf_text r hg).symm
  | measure label a =>
    have hkey : Record.key q.grouped.groupCols (q.recordOf (q.key r)) =
      q.key r := key_recordOf r
    simp only [hkey]
    exact congrArg (fun g => some (X.cell (a.value g))) hgroup.symm
  | tag =>
    have hds := layout.nameAt hitem
    rw [getElem?_eq_getElem hlt, Option.map_some, hname] at hds
    exact absurd (Option.some.inj hds) (horder o ho)

section Keys

variable (layout : Layout schema q.items q.groupCols)

include layout

theorem GroupRows.keys {part : List Record} (h : q.GroupRows X part rows) :
    (rows.map (q.keyAt schema)).Nodup ∧ ∀ k, k ∈ rows.map (q.keyAt schema) ↔
        k ∈ part.map q.key ∧ q.passes (groupOf q.key k part) = true := by
  obtain ⟨tag, reps, hreps, rfl⟩ := h
  have hkeys : (reps.map (q.grouped.answerRow X part tag)).map
      (q.keyAt schema) = reps.map q.key :=
    map_keyTexts_answerRow (q := q.grouped) layout part tag reps
  rw [hkeys]
  exact ⟨hreps.distinct, fun k => (hreps.keys k).trans q.mem_passing_keys⟩

theorem mem_groupRows_keys (h : List.Forall₂ (q.GroupRows X) parts groups)
    {k : List Str} : k ∈ groups.flatten.map (q.keyAt schema) ↔
      ∃ part ∈ parts, k ∈ part.map q.key ∧
        q.passes (groupOf q.key k part) = true := by
  induction h with
  | nil => simp
  | cons hrows _ ih =>
    rw [flatten_cons, map_append, mem_append, (hrows.keys layout).2, ih]
    simp

theorem nodup_groupRows_keys (hapart : Apart q.key parts)
    (h : List.Forall₂ (q.GroupRows X) parts groups) :
    (groups.flatten.map (q.keyAt schema)).Nodup := by
  induction h with
  | nil => exact nodup_nil
  | @cons part rows parts groups hrows hrest ih =>
    obtain ⟨hpart, hparts⟩ := pairwise_cons.mp hapart
    rw [flatten_cons, map_append]
    refine List.Nodup.append (hrows.keys layout).1 (ih hparts) ?_
    intro k hk hk'
    obtain ⟨hmem, -⟩ := ((hrows.keys layout).2 k).mp hk
    obtain ⟨part', hpart', hmem', -⟩ := (mem_groupRows_keys layout hrest).mp hk'
    obtain ⟨r, hr, rfl⟩ := mem_map.mp hmem
    obtain ⟨r', hr', heq⟩ := mem_map.mp hmem'
    exact hpart part' hpart' r hr r' hr' heq.symm

theorem groupRows_keys_perm (hapart : Apart q.key parts)
    (h : List.Forall₂ (q.GroupRows X) parts groups) :
    (groups.flatten.map (q.keyAt schema)).Perm
      (((parts.flatten.map q.key).dedup).filter fun k =>
        q.passes (groupOf q.key k parts.flatten)) := by
  refine (perm_ext_iff_of_nodup (nodup_groupRows_keys layout hapart h)
    ((nodup_dedup _).filter _)).mpr fun k => ?_
  rw [mem_groupRows_keys layout h, mem_filter, mem_dedup]
  constructor
  · rintro ⟨part, hpart, hk, hpass⟩
    refine ⟨?_, groupOf_of_apart hapart hpart hk ▸ hpass⟩
    obtain ⟨r, hr, rfl⟩ := mem_map.mp hk
    exact mem_map_of_mem (mem_flatten_of_mem hpart hr)
  · rintro ⟨hk, hpass⟩
    obtain ⟨r, hr, rfl⟩ := mem_map.mp hk
    obtain ⟨part, hpart, hr⟩ := mem_flatten.mp hr
    have hmem := mem_map_of_mem (f := q.key) hr
    exact ⟨part, hpart, hmem, (groupOf_of_apart hapart hpart hmem) ▸ hpass⟩

theorem GroupRows.length_eq {part : List Record} (h : q.GroupRows X part rows) :
    rows.length = ((q.passing part).map q.key).dedup.length := by
  obtain ⟨hnodup, hmem⟩ := h.keys layout
  rw [← length_map (q.keyAt schema)]
  refine ((perm_ext_iff_of_nodup hnodup (nodup_dedup _)).mpr fun k =>
    ?_).length_eq
  rw [hmem, mem_dedup, q.mem_passing_keys]

theorem apart_of_nodup (hpass : ∀ part ∈ parts, ∀ k ∈ part.map q.key,
      q.passes (groupOf q.key k part) = true)
    (h : List.Forall₂ (q.GroupRows X) parts groups)
    (hnodup : (groups.flatten.map (q.keyAt schema)).Nodup) :
    Apart q.key parts := by
  induction h with
  | nil => exact .nil
  | @cons part rows parts groups hrows hrest ih =>
    rw [flatten_cons, map_append] at hnodup
    obtain ⟨-, htail, hdisjoint⟩ := nodup_append'.mp hnodup
    refine pairwise_cons.mpr ⟨?_, ih (fun p hp => hpass p (by simp [hp])) htail⟩
    intro part' hpart' r hr r' hr' heq
    have hmem := mem_map_of_mem (f := q.key) hr
    have hmem' := mem_map_of_mem (f := q.key) hr'
    refine hdisjoint (((hrows.keys layout).2 _).mpr
      ⟨hmem, hpass part (by simp) _ hmem⟩) ?_
    rw [heq]
    exact (mem_groupRows_keys layout hrest).mpr ⟨part', hpart', hmem',
      hpass part' (by simp [hpart']) _ hmem'⟩

end Keys

variable [LinearOrder V]

theorem row_of_mem_answers
    (h : List.Forall₂ (q.AnsweredBy X schema) parts answers) {row : Row V}
    (hrow : row ∈ answers.flatten) :
    ∃ part ∈ parts, ∃ tag r, row = q.grouped.answerRow X part tag r ∧
    q.key r ∈ part.map q.key ∧
      q.passes (groupOf q.key (q.key r) part) = true := by
  obtain ⟨rows, hrows, hrow⟩ := mem_flatten.mp hrow
  obtain ⟨part, hpart, groups, hgroups, sorted, hperm, -, rfl⟩ :=
    exists_of_forall₂ h hrows
  exact ⟨part, hpart, hgroups.row_of_mem
    (hperm.mem_iff.mp (mem_of_mem_take hrow))⟩

theorem exists_groupRows
    (h : List.Forall₂ (q.AnsweredBy X schema) parts answers) :
    ∃ groups, List.Forall₂ (q.GroupRows X) parts groups ∧
      List.Forall₂ (TopN.IsTopBy (orderKey schema q.orderBy) q.sourceLimit)
      answers groups := by
  induction h with
  | nil => exact ⟨[], .nil, .nil⟩
  | cons hanswer _ ih =>
    obtain ⟨rows, hrows, htop⟩ := hanswer
    obtain ⟨groups, hgroups, htops⟩ := ih
    exact ⟨rows :: groups, .cons hrows hgroups, .cons htop htops⟩

section Cuts

variable (layout : Layout schema q.items q.groupCols)

include layout

theorem answers_perm_groups {n : Nat}
    (hall : ∀ part ∈ parts, ((q.passing part).map q.key).dedup.length ≤ n)
    (hgroups : List.Forall₂ (q.GroupRows X) parts groups)
    (htops : List.Forall₂ (TopN.IsTopBy (orderKey schema q.orderBy) n)
      answers groups) : answers.flatten.Perm groups.flatten := by
  induction hgroups generalizing answers with
  | nil =>
    cases htops
    exact .nil
  | @cons part rows parts groups hrows _ ih =>
    cases htops with
    | cons htop htops =>
      obtain ⟨whole, hwhole, -, rfl⟩ := htop
      have hlength : whole.length ≤ n := by
        rw [hwhole.length_eq, hrows.length_eq layout]
        exact hall part (by simp)
      rw [flatten_cons, flatten_cons, take_of_length_le hlength]
      exact hwhole.append (ih (fun p hp => hall p (by simp [hp])) htops)

theorem exists_whole (hfits : Fits q parts)
    (hgroups : List.Forall₂ (q.GroupRows X) parts groups)
    (htops : List.Forall₂ (TopN.IsTopBy (orderKey schema q.orderBy)
      q.sourceLimit) answers groups) {sorted : List (Row V)}
    (hperm : sorted.Perm answers.flatten) (hsorted : sorted.Pairwise fun a b =>
      orderKey schema q.orderBy a ≤ orderKey schema q.orderBy b) :
    ∃ whole : List (Row V), whole.Perm groups.flatten ∧
        (whole.Pairwise fun a b =>
        orderKey schema q.orderBy a ≤ orderKey schema q.orderBy b) ∧
      Windows.limited q.limit whole = Windows.limited q.limit sorted := by
  by_cases hsmall : ∃ n, q.limit = some n ∧ n ≤ fanoutLimit
  · obtain ⟨n, hn, hle⟩ := hsmall
    have hlimit : q.sourceLimit = n := by simp [sourceLimit, hn, hle]
    rw [hlimit] at htops
    obtain ⟨whole, hwhole, hpairwise, htake⟩ :=
      TopN.exists_whole_take htops hperm hsorted
    refine ⟨whole, hwhole, hpairwise, ?_⟩
    rw [hn]
    exact htake
  · -- nothing is cut off
    have hlimit : q.sourceLimit = fanoutLimit := by
      cases hq : q.limit with
      | none => simp [sourceLimit, hq]
      | some n =>
        have : ¬ n ≤ fanoutLimit := fun hle => hsmall ⟨n, hq, hle⟩
        simp only [sourceLimit, hq, Option.getD_some]
        omega
    have hall := hfits.resolve_left hsmall
    rw [hlimit] at htops
    have hsame := answers_perm_groups layout hall hgroups htops
    exact ⟨sorted, hperm.trans hsame, hsorted, rfl⟩

end Cuts

/-! ## The merged rows -/

variable [Unicode]

variable {batches : List (RecordBatch V)} {query : Str}
  {fed : FederatedResult V}

omit [LinearOrder V] [Unicode] in
theorem reaggregateBatches_unknown (env : Env V) {schema : Schema}
    (hschema : ∀ b ∈ batches, b.schema = schema) {names : List Str}
    (hnames : names.filterMap schema.indexOf = []) :
    reaggregateBatches env batches names = .ok batches := by
  cases batches with
  | nil => rfl
  | cons first rest =>
    simp [reaggregateBatches, hschema first (by simp), hnames]

omit [LinearOrder V] in
theorem applyHavingFilter_all {h : HavingCondition} {schema : Schema} {i : Nat}
    (hcolumn : (schema.findIdx? fun f =>
      toLowercase f.name = toLowercase h.column) = some i)
    (hschema : ∀ b ∈ batches, b.schema = schema)
    (hkeeps : ∀ row ∈ batches.flatMap (·.rows),
      havingKeeps h row[i]?.join = true) :
    applyHavingFilter h batches = batches := by
  refine (filterMap_congr fun b hb => ?_).trans filterMap_some
  have hall := filter_eq_self.mpr fun row hrow =>
    hkeeps row (mem_flatMap.mpr ⟨b, hb, hrow⟩)
  simp only [hschema b hb, hcolumn, Option.map_some,
    RecordBatch.filterRows, hall]
  rfl

private theorem having_keeps_answers (hread : q.ReadAs X schema query)
    {h : HavingClause} (hhaving : q.having = some h) {i : Nat} {label : Str}
    (hi : q.items[i]? = some (.measure label h.aggregate))
    (hexact : q.ExactValues X parts)
    (hanswers : List.Forall₂ (q.AnsweredBy X schema) parts answers) :
    ∀ row ∈ answers.flatten,
      havingKeeps ⟨h.column, h.op, X.double h.bound⟩ row[i]?.join = true := by
  intro row hrow
  obtain ⟨part, hpart, tag, r, rfl, -, hpass⟩ :=
    row_of_mem_answers hanswers hrow
  obtain ⟨hbound, hvalues⟩ := hexact h hhaving
  have hvalue := hvalues part hpart (q.key r)
  have hcell : (q.grouped.answerRow X part tag r)[i]?.join =
      some (X.cell (h.aggregate.value (groupOf q.key (q.key r) part))) := by
    have hitem : q.grouped.items[i]? = some (.measure label h.aggregate) := hi
    simp only [Grouped.answerRow, getElem?_map, hitem]
    rfl
  rw [passes, hhaving, Option.all_some] at hpass
  rw [hcell, havingKeeps, Option.bind_some, X.parse_cell _ hvalue]
  exact (hread.compares h hhaving _ hvalue hbound).trans hpass

theorem mergedResult_answers (hread : q.ReadAs X schema query) (env : Env V)
    (hexact : q.ExactValues X parts)
    (hfed : q.Collects X schema parts answers fed) :
    mergedResult env query fed = .ok fed.batches := by
  obtain ⟨names, hgroupBy, hnames⟩ := hread.groupBy
  simp only [mergedResult, hgroupBy, hread.having,
    reaggregateBatches_unknown env hfed.uniform hnames, bind, Except.bind, pure,
    Except.pure, ite_self]
  cases hhaving : q.having with
  | none => rfl
  | some h =>
    obtain ⟨i, label, hcolumn, hi⟩ := hread.column h hhaving
    have hkeeps := having_keeps_answers hread hhaving hi hexact hfed.answered
    rw [← hfed.rows] at hkeeps
    exact congrArg Except.ok (applyHavingFilter_all hcolumn hfed.uniform hkeeps)

section Pages

variable (hread : q.ReadAs X schema query) (hne : schema ≠ [])
  (hsort : LexsortSorts V)
  (env : Env V) (hexact : q.ExactValues X parts)

include hread hne hsort hexact

theorem page_of_answers (hfed : q.Collects X schema parts answers fed) :
    ∃ page sorted,
      (mergedResult env query fed >>= sortedWindow q.clauses {}) = .ok page ∧
      sorted.Perm answers.flatten ∧
      (sorted.Pairwise fun a b =>
        orderKey schema q.orderBy a ≤ orderKey schema q.orderBy b) ∧
      q.shownKeys page = (Windows.limited q.limit sorted).map
          (q.keyAt schema) := by
  have hmerged := mergedResult_answers hread env hexact hfed
  rw [← hfed.rows]
  obtain ⟨sorted, hsorted, hsschema, hperm, hpairwise⟩ :=
    applyOrderBy_sorted hsort hfed.uniform q.orderBy
  obtain ⟨page, hpage, hpschema, hprows⟩ :=
    takeWindow_same hne hsschema 0 q.limit
  refine ⟨page, sorted.flatMap (·.rows), ?_, hperm, hpairwise, ?_⟩
  · have hdistinct : applyDistinct false sorted = .ok sorted := by
      cases sorted <;> rfl
    simp only [hmerged, bind, Except.bind, sortedWindow, clauses, hsorted,
      hdistinct]
    exact hpage
  · rw [drop_zero] at hprows
    rw [← hprows, shownKeys_eq hpschema]

theorem showsGroups_of_unsatisfiable
    (hnone : ∀ group ≠ [], q.passes group = false)
    (hfed : q.Collects X schema parts answers fed) :
    q.ShowsGroups X schema env query parts fed := by
  obtain ⟨page, sorted, hpage, hperm, -, hshown⟩ :=
    page_of_answers hread hne hsort env hexact hfed
  have hfails : ∀ (records : List Record), ∀ k ∈ records.map q.key,
      q.passes (groupOf q.key k records) = false := by
    intro records k hk
    obtain ⟨r, hr, rfl⟩ := mem_map.mp hk
    exact hnone _ (ne_nil_of_mem (mem_filter.mpr ⟨hr, decide_eq_true rfl⟩))
  have hempty : sorted = [] := by
    refine eq_nil_iff_forall_not_mem.mpr fun row hrow => ?_
    obtain ⟨part, -, tag, r, -, hmem, hpass⟩ :=
      row_of_mem_answers hfed.answered (hperm.mem_iff.mp hrow)
    rw [hfails part _ hmem] at hpass
    cases hpass
  refine ⟨_, page, [], hread.clauses, hpage, ?_, .nil, ?_⟩
  · rw [filter_eq_nil_iff.mpr]
    intro k hk
    rw [hfails _ k (mem_dedup.mp hk)]
    exact Bool.false_ne_true
  · rw [hshown, hempty, ← Windows.limited_map]
    rfl

/-! ## Groups that lie in one source -/

variable (layout : Layout schema q.items q.groupCols)

include layout

theorem showsGroups_of_apart
    (horder : ∀ key ∈ q.orderBy, key.column ≠ datasourceField.name)
    (hapart : Apart q.key parts) (hfits : Fits q parts)
    (hfed : q.Collects X schema parts answers fed) :
    q.ShowsGroups X schema env query parts fed := by
  obtain ⟨page, sorted, hpage, hperm, hpairwise, hshown⟩ :=
    page_of_answers hread hne hsort env hexact hfed
  obtain ⟨groups, hgroups, htops⟩ := exists_groupRows hfed.answered
  obtain ⟨whole, hwhole, hsorted, hlimited⟩ :=
    exists_whole layout hfits hgroups htops hperm hpairwise
  have hkey : ∀ row ∈ whole, orderKey schema q.orderBy row =
      orderKey schema q.orderBy
      (q.wholeRow X parts.flatten (q.keyAt schema row)) := by
    intro row hrow
    obtain ⟨rows, hrows, hrow⟩ := mem_flatten.mp (hwhole.mem_iff.mp hrow)
    obtain ⟨part, hpart, hpartRows⟩ := exists_of_forall₂ hgroups hrows
    obtain ⟨tag, r, rfl, hmem, -⟩ := hpartRows.row_of_mem hrow
    have htexts := keyTexts_answerRow (X := X)
      (q := q.grouped) layout part tag r
    change q.keyAt schema (q.grouped.answerRow X part tag r) = q.key r at htexts
    rw [htexts]
    exact orderKey_answerRow layout horder tag
      (groupOf_of_apart hapart hpart hmem)
  refine ⟨_, page, whole.map (q.keyAt schema), hread.clauses, hpage,
    (hwhole.map _).trans (groupRows_keys_perm layout hapart hgroups), ?_, ?_⟩
  · rw [pairwise_map]
    refine hsorted.imp_of_mem fun ha hb hab => ?_
    rwa [← hkey _ ha, ← hkey _ hb]
  · rw [hshown, ← hlimited, Windows.limited_map]

theorem apart_of_showsGroups (hlimit : q.limit = none) (hfits : Fits q parts)
    (hpass : ∀ part ∈ parts, ∀ k ∈ part.map q.key,
      q.passes (groupOf q.key k part) = true)
    (hfed : q.Collects X schema parts answers fed)
    (h : q.ShowsGroups X schema env query parts fed) : Apart q.key parts := by
  obtain ⟨page, sorted, hpage, hperm, hpairwise, hshown⟩ :=
    page_of_answers hread hne hsort env hexact hfed
  obtain ⟨clauses, page', whole, hclauses, hpage', hwhole, -, hshown'⟩ := h
  cases Except.ok.inj (hread.clauses.symm.trans hclauses)
  cases Except.ok.inj (hpage.symm.trans hpage')
  obtain ⟨groups, hgroups, htops⟩ := exists_groupRows hfed.answered
  obtain ⟨rows, hrows, -, hlimited⟩ :=
    exists_whole layout hfits hgroups htops hperm hpairwise
  refine apart_of_nodup layout hpass hgroups ?_
  rw [hlimit] at hshown hshown' hlimited
  have heq : rows = sorted := hlimited
  have hkeys : whole = rows.map (q.keyAt schema) := by
    rw [heq]
    exact hshown'.symm.trans hshown
  refine ((hrows.map _).nodup_iff).mp ?_
  rw [← hkeys, hwhole.nodup_iff]
  exact (nodup_dedup _).filter _

end Pages

section Recognised

variable (layout : Layout schema q.items q.groupCols)

include layout

omit [Unicode] [LinearOrder V] [FloatOps] in
theorem indexOf_reaggregateSchema {g : Str} (hg : g ∈ q.groupCols) :
    (reaggregateSchema schema (q.groupCols.filterMap schema.indexOf)).indexOf
    g = some (q.groupCols.idxOf g) := by
  have hnames : Schema.names (reaggregateSchema schema
    (q.groupCols.filterMap schema.indexOf)) =
      q.groupCols ++ (q.items.filterMap Item.aggregate).map (·.1) :=
    names_reaggregateSchema (q := q.grouped) layout
  have hsame : (fun x : Str => decide (x = g)) = (· == g) := by
    funext x
    rw [Bool.eq_iff_iff, decide_eq_true_iff, beq_iff_eq]
  have hfound : q.groupCols.findIdx? (fun x => decide (x = g)) =
      some (q.groupCols.idxOf g) := by
    rw [hsame, findIdx?_eq_some_iff_findIdx_eq]
    exact ⟨idxOf_lt_length_iff.mpr hg, rfl⟩
  calc (reaggregateSchema schema
    (q.groupCols.filterMap schema.indexOf)).indexOf g
      _ = (Schema.names (reaggregateSchema schema
        (q.groupCols.filterMap schema.indexOf))).findIdx?
            (fun x => decide (x = g)) := by
          rw [Schema.names, findIdx?_map]
          rfl
      _ = some (q.groupCols.idxOf g) := by
          rw [hnames, findIdx?_append, hfound]
          rfl

omit [Unicode] [LinearOrder V] in
theorem keyTexts_groupRow {rows : List (Row V)} {groups : List (Group V)}
    (hgroups : GroupsOf (q.groupCols.filterMap schema.indexOf) rows groups)
    {g : Group V} (hg : g ∈ groups) (X : Numbers ℤ V) :
    keyTexts (q.groupCols.filterMap (reaggregateSchema schema
        (q.groupCols.filterMap schema.indexOf)).indexOf)
      (groupRow (q.groupCols.filterMap schema.indexOf)
        (aggregateColumns schema (q.groupCols.filterMap schema.indexOf)) g) =
      g.key := by
  obtain ⟨position, hcolumns, -⟩ := layout.filterMap_indexOf
  -- the key is that of a record
  obtain ⟨r, hr⟩ : ∃ r, q.key r = g.key := by
    obtain ⟨row, -, heq⟩ :=
      mem_map.mp ((hgroups.keys g.key).mp (mem_map_of_mem hg))
    refine ⟨⟨fun c => cellText row[position c]?.join, fun _ => 0⟩, ?_⟩
    rw [← heq, keyTexts, hcolumns, map_map]
    rfl
  have hindex : q.groupCols.filterMap (reaggregateSchema schema
      (q.groupCols.filterMap schema.indexOf)).indexOf =
    q.groupCols.map q.groupCols.idxOf := by
    rw [← filterMap_eq_map]
    exact filterMap_congr fun c hc => indexOf_reaggregateSchema layout hc
  rw [hindex, keyTexts, map_map, ← hr]
  refine map_congr_left fun c hc => ?_
  have hlt : q.groupCols.idxOf c < q.groupCols.length :=
    idxOf_lt_length_iff.mpr hc
  have hkey : g.key[q.groupCols.idxOf c]? = some (r.text c) := by
    rw [← hr, key, Record.key, getElem?_map, getElem?_idxOf hc]
    rfl
  have hcell : (groupRow (q.groupCols.filterMap schema.indexOf)
      (aggregateColumns schema (q.groupCols.filterMap schema.indexOf))
      g)[q.groupCols.idxOf c]?.join = some (X.text (r.text c)) := by
    have hcolumn :
      (q.groupCols.filterMap schema.indexOf)[q.groupCols.idxOf c]? =
        some (position c) := by
      rw [hcolumns, getElem?_map, getElem?_idxOf hc]
      rfl
    have hzip := getElem?_zip_eq_some (z := (position c, r.text c)).mpr
      ⟨hcolumn, hkey⟩
    have hmapped := congrArg (Option.map fun p : Nat × Str =>
      some (ArrowKernels.ofText (g.cells p.1) p.2)) hzip
    rw [← getElem?_map] at hmapped
    rw [groupRow, getElem?_append_left (List.getElem?_eq_some_iff.mp hmapped).1,
      hmapped, ← X.ofText]
    rfl
  rw [Function.comp_apply, hcell, cellText]
  exact X.display_text _

omit [LinearOrder V] [Unicode] in
theorem exists_reaggregated (env : Env V) (hgroup : q.groupCols ≠ [])
    (hschema : ∀ b ∈ batches, b.schema = schema) (X : Numbers ℤ V) :
    ∃ out, reaggregateBatches env batches q.groupCols = .ok out ∧
      (∀ b ∈ out, b.schema = reaggregateSchema schema
        (q.groupCols.filterMap schema.indexOf)) ∧
      (q.shownKeys out).Nodup ∧ ∀ k, k ∈ q.shownKeys out ↔
        k ∈ (batches.flatMap (·.rows)).map (q.keyAt schema) := by
  by_cases hne : batches = []
  · subst hne
    exact ⟨[], rfl, by simp, nodup_nil, fun k => Iff.rfl⟩
  have hcolumns : q.groupCols.filterMap schema.indexOf ≠ [] := by
    obtain ⟨position, heq, -⟩ := layout.filterMap_indexOf
    rw [heq]
    simpa using hgroup
  obtain ⟨out, hout, hnames, groups, hgroups, hperm⟩ :=
    reaggregateBatches_rows env hne hschema hcolumns
  have hkeys : (q.shownKeys [out]).Perm (groups.map (·.key)) := by
    rw [shownKeys, flatMap_singleton, hnames]
    refine (hperm.map _).trans (List.Perm.of_eq ?_)
    rw [map_map]
    exact map_congr_left fun g hg => keyTexts_groupRow layout hgroups hg X
  refine ⟨[out], hout, by simp [hnames], hkeys.nodup_iff.mpr hgroups.distinct,
    fun k => ?_⟩
  rw [hkeys.mem_iff, hgroups.keys]

omit [Unicode] in
/-- A source that is cut off has filled the result. -/
theorem mem_or_le_length (hhaving : q.having = none) (hfits : Fits q parts)
    (hanswers : List.Forall₂ (q.AnsweredBy X schema) parts answers)
    {keys : List (List Str)}
    (hkeys : ∀ k, k ∈ keys ↔ k ∈ answers.flatten.map (q.keyAt schema)) :
    (∀ k ∈ parts.flatten.map q.key, k ∈ keys) ∨
      ∃ n, q.limit = some n ∧ n ≤ keys.length := by
  have hpasses : ∀ group, q.passes group = true := by simp [passes, hhaving]
  obtain ⟨groups, hgroups, htops⟩ := exists_groupRows hanswers
  by_cases hall : ∀ part ∈ parts, ((q.passing part).map q.key).dedup.length ≤
    q.sourceLimit
  · refine Or.inl fun k hk => (hkeys k).mpr ?_
    have hsame := answers_perm_groups layout hall hgroups htops
    rw [(hsame.map _).mem_iff, mem_groupRows_keys layout hgroups]
    obtain ⟨r, hr, rfl⟩ := mem_map.mp hk
    obtain ⟨part, hpart, hr⟩ := mem_flatten.mp hr
    exact ⟨part, hpart, mem_map_of_mem hr, hpasses _⟩
  · push Not at hall
    obtain ⟨part, hpart, hmore⟩ := hall
    have hlimit : q.limit = some q.sourceLimit := by
      cases hq : q.limit with
      | none =>
        have hle := (hfits.resolve_left (by simp [hq])) part hpart
        simp only [sourceLimit, hq, Option.getD_none, min_self] at hmore
        omega
      | some n =>
        have hle : n ≤ fanoutLimit := by
          rcases hfits with ⟨m, hm, hle⟩ | hle
          · cases hq.symm.trans hm
            exact hle
          · have := hle part hpart
            simp only [sourceLimit, hq, Option.getD_some] at hmore
            omega
        simp [sourceLimit, hq, hle]
    refine Or.inr ⟨_, hlimit, ?_⟩
    obtain ⟨rows, hrows, full, hfull, htop⟩ :=
      exists_of_forall₂ hanswers.flip hpart
    have hlength : rows.length = q.sourceLimit := by
      rw [htop.length_eq, hfull.length_eq layout, min_eq_left hmore.le]
    obtain ⟨sorted, hperm, -, rfl⟩ := htop
    have hnodup : ((sorted.take q.sourceLimit).map (q.keyAt schema)).Nodup :=
      (((hperm.map _).nodup_iff.mpr (hfull.keys layout).1).sublist
        ((take_sublist _ _).map _))
    rw [← hlength, ← length_map (q.keyAt schema)]
    refine (subperm_of_subset hnodup fun k hk => (hkeys k).mpr ?_).length_le
    obtain ⟨row, hrow, rfl⟩ := mem_map.mp hk
    exact mem_map_of_mem (mem_flatten_of_mem hrows hrow)

theorem showsGroups_of_recognised (hwritten : q.grouped.WrittenAs query)
    (hclauses : parseClauses query = .ok q.clauses) (hhaving : q.having = none)
    (horder : q.orderBy = []) (hgroup : q.groupCols ≠ []) (hfits : Fits q parts)
    (env : Env V) (hsources : 1 < fed.datasources.length)
    (hfed : q.Collects X schema parts answers fed) :
    q.ShowsGroups X schema env query parts fed := by
  obtain ⟨out, hout, hsame, hnodup, hkeys⟩ :=
    exists_reaggregated layout env hgroup hfed.uniform X
  rw [hfed.rows] at hkeys
  have hmerged : mergedResult env query fed = .ok out :=
    (mergedResult_grouped env hwritten hgroup hsources).trans hout
  have hne : reaggregateSchema schema (q.groupCols.filterMap schema.indexOf) ≠
      [] := by
    obtain ⟨position, heq, -⟩ := layout.filterMap_indexOf
    simp [reaggregateSchema, heq, hgroup]
  obtain ⟨page, hpage, hpschema, hprows⟩ := takeWindow_same hne hsame 0 q.limit
  have hshown : q.shownKeys page = Windows.limited q.limit
      (q.shownKeys out) := by
    rw [shownKeys_eq hpschema, shownKeys_eq hsame, hprows, drop_zero,
      Windows.limited_map]
  have hkeyed : ∀ k ∈ q.shownKeys out, k ∈ parts.flatten.map q.key := by
    intro k hk
    obtain ⟨row, hrow, rfl⟩ := mem_map.mp ((hkeys k).mp hk)
    obtain ⟨part, hpart, tag, r, rfl, hr, -⟩ :=
      row_of_mem_answers hfed.answered hrow
    have htexts := keyTexts_answerRow (X := X)
      (q := q.grouped) layout part tag r
    change q.keyAt schema (q.grouped.answerRow X part tag r) = q.key r at htexts
    rw [htexts]
    obtain ⟨x, hx, heq⟩ := mem_map.mp hr
    exact mem_map.mpr ⟨x, mem_flatten_of_mem hpart hx, heq⟩
  let rest := (parts.flatten.map q.key).dedup.filter (· ∉ q.shownKeys out)
  refine ⟨_, page, q.shownKeys out ++ rest, hclauses, ?_, ?_, ?_, ?_⟩
  · have hordered : applyOrderBy [] out = .ok out := by cases out <;> rfl
    have hdistinct : applyDistinct false out = .ok out := by cases out <;> rfl
    simp only [hmerged, bind, Except.bind, sortedWindow, clauses, horder,
      hordered, hdistinct]
    exact hpage
  · have hpasses : ∀ group, q.passes group = true := by simp [passes, hhaving]
    rw [filter_eq_self.mpr fun k _ => hpasses _]
    refine (perm_ext_iff_of_nodup ?_ (nodup_dedup _)).mpr fun k => ?_
    · refine hnodup.append ((nodup_dedup _).filter _) fun k hk hk' => ?_
      exact absurd hk (of_decide_eq_true (mem_filter.mp hk').2)
    · by_cases hk : k ∈ q.shownKeys out
      · simpa [hk] using hkeyed k hk
      · simp [rest, hk]
  · rw [horder]
    exact pairwise_of_forall fun _ _ => le_rfl
  · rw [hshown]
    rcases mem_or_le_length layout hhaving hfits hfed.answered hkeys with hall
      | ⟨n, hn, hle⟩
    · have hrest : rest = [] := filter_eq_nil_iff.mpr fun k hk => by
        simpa using hall k (mem_dedup.mp hk)
      rw [hrest, append_nil]
    · rw [hn]
      exact (take_append_of_le_length hle).symm

end Recognised

section Runs

variable [SqlParser] {fields : Schema} {base : SubQuery} {format : Str}
  {refs : List TableRef} {env : Env V} {s : ExecState V}

omit [Unicode] [SqlParser] in
theorem answeredBy_sent {part : List Record} :
    ({ q with limit := some q.sourceLimit } : GroupQuery).AnsweredBy X schema
    part rows ↔ q.AnsweredBy X schema part rows := by
  have hlimit :
    ({ q with limit := some q.sourceLimit } : GroupQuery).sourceLimit =
      q.sourceLimit := by simp [sourceLimit]
  unfold AnsweredBy
  rw [hlimit]
  rfl

theorem Answered.result (h : q.Answered X fields base refs parts env s)
    (hsent : q.SentAs base) (hbase : unionBase query format refs = .ok base) :
    ∃ fed answers, (executeUnion env query format refs s).result = .ok fed ∧
      q.Collects X (fields ++ [datasourceField]) parts answers fed ∧
      fed.datasources.length = refs.length := by
  obtain ⟨fed, hfed, hschema, hrows, -, hsources⟩ :=
    executeUnion_answered hbase h.registered fun a ha => by
      obtain ⟨-, -, batches, hok, hsame, -⟩ := exists_of_forall₂ h.answers ha
      exact ⟨batches, hok, hsame⟩
  refine ⟨fed, _, hfed, ⟨hschema, hrows.trans (flatMap_def ..), ?_⟩, ?_⟩
  · refine forall₂_map_right_iff.mpr (h.answers.imp ?_)
    rintro part a ⟨batches, -, -, asked, hasked, hanswered⟩
    cases Option.some.inj (hasked.symm.trans (hsent a.1))
    exact answeredBy_sent.mp hanswered
  · rw [hsources, length_map]

omit [Unicode] [SqlParser] in
theorem exists_answer
    (layout : Layout (fields ++ [datasourceField]) q.items q.groupCols)
    (X : Numbers ℤ V) (part : List Record) (ds : Str) :
    ∃ batch : RecordBatch V, batch.schema = fields ∧
      q.AnsweredBy X (fields ++ [datasourceField]) part
      (answerRows ds (.ok [batch])) := by
  obtain ⟨reps, hreps⟩ := exists_represents q.key (q.passing part)
  let tag : V := ArrowKernels.ofText [] ds
  obtain ⟨sorted, hperm, hsorted⟩ := TopN.exists_sorted_by
    (orderKey (fields ++ [datasourceField]) q.orderBy)
    (reps.map (q.grouped.answerRow X part (some tag)))
  let plain : Record → Row V :=
    (countsAndSums q.groupCols q.columns).answerRow X part (some tag)
  have htag : ∀ row ∈ sorted.take q.sourceLimit, ∃ r,
      row = tagRow ds (plain r) := by
    intro row hrow
    obtain ⟨r, -, rfl⟩ := mem_map.mp (hperm.mem_iff.mp (mem_of_mem_take hrow))
    exact ⟨r, by simp [Grouped.answerRow, grouped, countsAndSums, items, tagRow,
      plain, tag]⟩
  have hfits : ∀ row ∈ (sorted.take q.sourceLimit).map List.dropLast,
      rowFits fields row = true := by
    intro row hrow
    obtain ⟨tagged, htagged, rfl⟩ := mem_map.mp hrow
    obtain ⟨r, rfl⟩ := htag tagged htagged
    rw [tagRow, dropLast_concat]
    refine Grouped.answerRow_fits X ?_ part tag r
    change fields.length = q.columns.length
    simpa [items] using layout.length
  refine ⟨⟨fields, _, hfits⟩, rfl, _, ⟨some tag, reps, hreps, rfl⟩, sorted,
    hperm, hsorted, ?_⟩
  rw [answerRows, flatMap_singleton, map_map]
  refine (map_congr_left fun row hrow => ?_).trans (map_id _)
  obtain ⟨r, rfl⟩ := htag row hrow
  simp [tagRow]

omit [Unicode] [SqlParser] in
theorem exists_answered
    (layout : Layout (fields ++ [datasourceField]) q.items q.groupCols)
    (X : Numbers ℤ V) (hsent : q.SentAs base)
    (hlength : parts.length = refs.length) :
    ∃ env s, q.Answered X fields base refs parts env s := by
  choose batch hschema hanswered using exists_answer layout X
  let env : Env V := { Env.quiet V with
    execute := fun number ds _ => .ok [batch (parts.getD number []) ds] }
  refine ⟨env, knowing refs, (knowing_external refs).registered, ?_⟩
  rw [sourceAnswers_external (knowing_external refs), forall₂_iff_get]
  refine ⟨by simpa using hlength, fun i hi hi' => ?_⟩
  have href : i < refs.length := hlength ▸ hi
  have hcall : (refs.mapIdx fun i r =>
    (r, (taskResult env ((knowing refs : ExecState V).calls + i)
      ⟨r.datasource, .external, sourceSubQuery base r⟩).2)).get ⟨i, hi'⟩ =
      (refs[i], .ok [batch parts[i] refs[i].datasource]) := by
    simp [taskResult, timedAnswer, env, Env.quiet, knowing, hi]
  rw [hcall]
  exact ⟨_, rfl, by simpa using hschema _ _, _, hsent _,
    answeredBy_sent.mpr (hanswered _ _)⟩

end Runs

end Sources

section Filled

variable {q : GroupQuery}

def relabel (text : Str → Str) (group : List Record) : List Record :=
  group.map fun r => { r with text }

theorem value_relabel (a : Aggregate) (text : Str → Str)
    (group : List Record) : a.value (relabel text group) = a.value group := by
  cases a with
  | count => simp [Aggregate.value, relabel]
  | sum column => simp [Aggregate.value, relabel, Function.comp_def]

variable {group : List Record}

theorem exists_filled (hgroup : group ≠ []) (part : List Record) :
    ∃ filled, (∀ k, k ∈ filled.map q.key ↔ k ∈ part.map q.key) ∧
    ∀ k ∈ part.map q.key, ∃ text,
        groupOf q.key k filled = relabel text group := by
  obtain ⟨reps, hreps⟩ := exists_represents q.key part
  have hkey : ∀ (r : Record), ∀ x ∈ relabel r.text group,
      q.key x = q.key r := by
    intro r x hx
    obtain ⟨y, -, rfl⟩ := mem_map.mp hx
    rfl
  refine ⟨reps.flatMap fun r => relabel r.text group, fun k => ?_,
    fun k hk => ?_⟩
  · rw [← hreps.keys]
    constructor
    · intro hk
      obtain ⟨x, hx, rfl⟩ := mem_map.mp hk
      obtain ⟨r, hr, hx⟩ := mem_flatMap.mp hx
      rw [hkey r x hx]
      exact mem_map_of_mem hr
    · intro hk
      obtain ⟨r, hr, rfl⟩ := mem_map.mp hk
      obtain ⟨y, hy⟩ := exists_mem_of_ne_nil group hgroup
      exact mem_map.mpr ⟨{ y with text := r.text },
        mem_flatMap.mpr ⟨r, hr, mem_map_of_mem hy⟩, rfl⟩
  · obtain ⟨r, hr, heq⟩ := hreps.groupOf_eq hk
    refine ⟨r.text, ?_⟩
    rw [groupOf_flatMap hkey, heq, flatMap_singleton]

def SameKeys (q : GroupQuery) (parts parts' : List (List Record)) : Prop :=
  List.Forall₂ (fun part part' => ∀ k, k ∈ part'.map q.key ↔
    k ∈ part.map q.key) parts parts'

theorem exists_filled_parts (hgroup : group ≠ []) (parts : List (List Record)) :
    ∃ filled, SameKeys q parts filled ∧ ∀ part ∈ filled, ∀ k ∈ part.map q.key,
    ∃ text, groupOf q.key k part = relabel text group := by
  induction parts with
  | nil => exact ⟨[], .nil, by simp⟩
  | cons part parts ih =>
    obtain ⟨rest, hsame, hrest⟩ := ih
    obtain ⟨filled, hkeys, hgroups⟩ := exists_filled (q := q) hgroup part
    refine ⟨filled :: rest, .cons hkeys hsame, ?_⟩
    intro p hp k hk
    rcases mem_cons.mp hp with rfl | hp
    · exact hgroups k ((hkeys k).mp hk)
    · exact hrest p hp k hk

variable {parts parts' : List (List Record)}

theorem SameKeys.symm (h : SameKeys q parts parts') : SameKeys q parts' parts :=
  List.Forall₂.imp (fun _ _ hkeys k => (hkeys k).symm) h.flip

theorem SameKeys.apart (h : SameKeys q parts parts')
    (hapart : Apart q.key parts') : Apart q.key parts := by
  induction h with
  | nil => exact .nil
  | @cons part part' parts parts' hkeys hrest ih =>
    obtain ⟨hhead, htail⟩ := pairwise_cons.mp hapart
    refine pairwise_cons.mpr ⟨?_, ih htail⟩
    intro p hp r hr r' hr' heq
    obtain ⟨p', hp', hkeys'⟩ := exists_of_forall₂ hrest.flip hp
    obtain ⟨x, hx, hxr⟩ := mem_map.mp ((hkeys _).mpr (mem_map_of_mem hr))
    obtain ⟨y, hy, hyr⟩ := mem_map.mp ((hkeys' _).mpr (mem_map_of_mem hr'))
    exact hhead p' hp' x hx y hy (hxr.trans (heq.trans hyr.symm))

theorem SameKeys.fits (h : SameKeys q parts parts')
    (hall : ∀ part ∈ parts, (part.map q.key).dedup.length ≤ fanoutLimit) :
    Fits q parts' := by
  refine Or.inr fun part' hpart' => ?_
  obtain ⟨part, hpart, hkeys⟩ := exists_of_forall₂ h hpart'
  refine (subperm_of_subset (nodup_dedup _) fun k hk => ?_).length_le.trans
    (hall part hpart)
  exact mem_dedup.mpr ((hkeys k).mp (q.mem_passing_keys.mp (mem_dedup.mp hk)).1)

theorem exists_near_bound (op : HavingOp) {v c : ℤ}
    (h : op.compare v c = true) :
    ∃ v', op.compare v' c = true ∧ |v'| ≤ |c| + 1 ∧ (1 ≤ v → 1 ≤ v') := by
  refine ⟨max (c - 1) (min v (max 1 (c + 1))), ?_, ?_, by omega⟩
  · cases op <;> simp only [HavingOp.compare, decide_eq_true_eq] at h ⊢
      <;> omega
  · have habove := le_abs_self c
    have hbelow := neg_abs_le c
    rw [abs_le]
    omega

theorem exists_group_value (a : Aggregate) {v : ℤ}
    (hcount : a = .count → 1 ≤ v) :
    ∃ group ≠ [], a.value group = v := by
  cases a with
  | count =>
    have hone := hcount rfl
    refine ⟨replicate v.toNat ⟨fun _ => [], fun _ => 0⟩, ?_, ?_⟩
      <;> simp [Aggregate.value] <;> omega
  | sum column =>
    exact ⟨[⟨fun _ => [], fun _ => v⟩], by simp, by simp [Aggregate.value]⟩

theorem exists_small_group {h : HavingClause} (hhaving : q.having = some h)
    (hgroup : group ≠ [])
    (hpass : q.passes group = true) : ∃ small ≠ [], q.passes small = true ∧
      |h.aggregate.value small| ≤ |h.bound| + 1 := by
  have hpasses : ∀ small, q.passes small =
      h.op.compare (h.aggregate.value small) h.bound := by
    intro small
    rw [passes, hhaving, Option.all_some]
  rw [hpasses] at hpass
  obtain ⟨v, hcompare, hle, hone⟩ := exists_near_bound h.op hpass
  obtain ⟨small, hsmall, rfl⟩ := exists_group_value (v := v) h.aggregate
    fun ha => hone (by
    have hlength := length_pos_of_ne_nil hgroup
    simp only [ha, Aggregate.value]
    omega)
  exact ⟨small, hsmall, (hpasses small).trans hcompare, hle⟩

/-- One group that passes and has an exact value, in place of every group. -/
theorem exists_exact_parts {V : Type} [ArrowKernels V] [FloatOps]
    {X : Numbers ℤ V} (hX : ∀ n : ℤ, |n| < 2 ^ 53 → X.Exact n)
    (hbound : ∀ h, q.having = some h → |h.bound| + 1 < 2 ^ 53)
    (hgroup : group ≠ []) (hpass : q.passes group = true)
    (parts : List (List Record)) :
    ∃ parts', q.SameKeys parts parts' ∧ q.ExactValues X parts' ∧
      ∀ part ∈ parts', ∀ k ∈ part.map q.key,
        q.passes (groupOf q.key k part) = true := by
  obtain ⟨small, hsmall, hsmallPass, hvalue⟩ :
      ∃ small ≠ [], q.passes small = true ∧
        ∀ h, q.having = some h → X.Exact (h.aggregate.value small) := by
    cases hhaving : q.having with
    | none => exact ⟨group, hgroup, hpass, by simp⟩
    | some h =>
      obtain ⟨small, hsmall, hsmallPass, hle⟩ :=
        exists_small_group hhaving hgroup hpass
      refine ⟨small, hsmall, hsmallPass, ?_⟩
      rintro _ ⟨⟩
      exact hX _ (hle.trans_lt (hbound h hhaving))
  obtain ⟨parts', hsame, hfilled⟩ := exists_filled_parts (q := q) hsmall parts
  refine ⟨parts', hsame, fun h hhaving => ⟨?_, fun part hpart k => ?_⟩, ?_⟩
  · exact hX _ (by have := hbound h hhaving; omega)
  · by_cases hk : k ∈ part.map q.key
    · obtain ⟨text, heq⟩ := hfilled part hpart k hk
      rw [heq, value_relabel]
      exact hvalue h hhaving
    · rw [groupOf_of_not_mem hk, Aggregate.value_nil]
      exact X.exact_zero
  · intro part hpart k hk
    obtain ⟨text, heq⟩ := hfilled part hpart k hk
    simpa only [heq, passes, value_relabel] using hsmallPass

end Filled

end GroupQuery

open GroupQuery

section Main

variable {V : Type} [ArrowKernels V] [FloatOps] [LinearOrder V] [Unicode]
  [SqlParser]

end Main

section Example

attribute [local instance] asciiUnicode wholeDoubles numberCells

theorem numberCells_sorts : LexsortSorts Str := by
  intro descending keys _
  exact ⟨_, rfl, lexsortByKeys_sorts descending keys⟩

def frequentQuery : GroupQuery where
  groupCols := ["customer"]
  columns := [.key "customer", .measure "n" .count]
  having := some ⟨"n", .count, .gt, 1⟩
  orderBy := []
  limit := none

def frequentText : Str :=
  "SELECT customer, COUNT(*) AS n FROM a.t GROUP BY customer HAVING n > 1" ++
    " UNION ALL " ++
    "SELECT customer, COUNT(*) AS n FROM b.t GROUP BY customer HAVING n > 1"

def frequentFields : Schema :=
  [⟨"customer", .utf8, false⟩, ⟨"n", .int64, false⟩]

def frequentBase : SubQuery where
  table := "t"
  projections := ["customer"]
  aggregations := [⟨.count, none, "n"⟩]
  groupBy := ["customer"]
  having := some (.comparison "n" .gt (.int64 1))

def frequentSelect (table : Str) : Select :=
  .mk [.unnamedExpr (.identifier { value := "customer" }),
      .exprWithAlias (.function {
        name := [.identifier { value := "COUNT" }]
        args := .list none [.wildcard] }) { value := "n" }]
    (fromTable table) none
    (.expressions [.identifier { value := "customer" }])
    (some (.binaryOp (.identifier { value := "n" }) .gt
      (.value (.number "1" false))))

def frequentParsed : Query :=
  .mk (.setOperation (.select (frequentSelect "a.t"))
    (.select (frequentSelect "b.t"))) none none

def noFrequentCustomer : Env Str :=
  { Env.quiet Str with
    execute := fun _ _ _ => .ok [{
      schema := frequentFields
      rows := []
      fits := by simp }] }

theorem frequentLayout : Layout (frequentFields ++ [datasourceField])
    frequentQuery.items ["customer"] where
  names := rfl
  distinct := by decide
  keys := by simp [frequentQuery, items]
  measures := measures_of_aggregates (by decide)

theorem frequentRead : frequentQuery.ReadAs exactIntegers
    (frequentFields ++ [datasourceField]) frequentText where
  clauses := by decide +kernel
  groupBy := ⟨["customer HAVING n > 1"], by decide +kernel, by decide⟩
  having := by decide +kernel
  column := by
    rintro _ ⟨⟩
    exact ⟨1, "n", by decide, rfl⟩
  compares := by
    rintro _ ⟨⟩ n hn -
    have hbound := abs_lt.mp hn
    have hvalue : (Int64.ofInt n).toInt = n :=
      Int64.toInt_ofInt_of_le (by omega) (by omega)
    change BitVec.slt (Int64.ofInt 1).toBitVec (Int64.ofInt n).toBitVec =
      decide (1 < n)
    rw [BitVec.slt, Int64.toInt_toBitVec, Int64.toInt_toBitVec, hvalue]
    rfl

theorem frequentBound : exactIntegers.Exact 1 := by
  change |(1 : ℤ)| < 2 ^ 53
  decide

def homeCustomers : List (List Record) :=
  [[order "ann" 5, order "ann" 6], [order "bob" 7]]

end Example

end Fuse.Server
