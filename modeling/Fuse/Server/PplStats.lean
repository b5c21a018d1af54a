import Fuse.Server.ColumnSecurity
import Fuse.Server.Having

/-!
# `stats` and `top` over several sources

A piped query is translated to SQL for its sources, but the endpoint looks for
`GROUP BY` in the text it was sent.  There is none, so the rows of the sources
are put behind each other and not added up.
-/

namespace Fuse.Server

open Foundation Fuse.Core Engine Grouping List

namespace GroupQuery

variable {V : Type} [ArrowKernels V] [FloatOps] {q : GroupQuery}

/-! ## Rows without their source -/

def untagged (q : GroupQuery) (row : Row V) : Row V :=
  ((q.items.zip row).filter fun cell => cell.1 ≠ .tag).map Prod.snd

omit [ArrowKernels V] [FloatOps] in
theorem untagged_map (f : Item Aggregate → Option V) :
    q.untagged (q.items.map f) = (q.items.filter (· ≠ .tag)).map f := by
  unfold untagged
  induction q.items with
  | nil => rfl
  | cons item items ih =>
    by_cases hitem : item = .tag
    · simpa [hitem] using ih
    · simpa [hitem] using ih

variable {X : Numbers ℤ V} {schema : Schema}

section Rows

variable (layout : Layout schema q.items q.groupCols)

include layout

variable {part records : List Record}

theorem untagged_answerRow (tag : Option V) {r : Record}
    (hgroup : groupOf q.key (q.key r) records = groupOf q.key (q.key r) part) :
    q.untagged (q.grouped.answerRow X part tag r) =
      q.untagged (q.wholeRow X records (q.key r)) := by
  rw [wholeRow, Grouped.answerRow, Grouped.answerRow]
  change q.untagged (q.items.map _) = q.untagged (q.items.map _)
  rw [untagged_map, untagged_map]
  refine map_congr_left fun item hitem => ?_
  obtain ⟨hmem, htag⟩ := mem_filter.mp hitem
  cases item with
  | key g =>
    have hg : g ∈ q.groupCols := (layout.keys g).mp hmem
    exact congrArg (fun t => some (X.text t)) (recordOf_text r hg).symm
  | measure label a =>
    have hkey : Record.key q.grouped.groupCols (q.recordOf (q.key r)) =
      q.key r := key_recordOf r
    simp only [hkey]
    exact congrArg (fun g => some (X.cell (a.value g))) hgroup.symm
  | tag => simp at htag

omit layout in
theorem cell_of_untagged {tag : Option V} {r : Record}
    (h : q.untagged (q.grouped.answerRow X part tag r) =
      q.untagged (q.wholeRow X records (q.key r))) {label : Str} {a : Aggregate}
    (ha : .measure label a ∈ q.items) :
    X.cell (a.value (groupOf q.key (q.key r) part)) =
      X.cell (a.value (groupOf q.key (q.key r) records)) := by
  rw [wholeRow, Grouped.answerRow, Grouped.answerRow] at h
  change q.untagged (q.items.map _) = q.untagged (q.items.map _) at h
  rw [untagged_map, untagged_map] at h
  have hcell := map_inj_left.mp h (.measure label a)
    (mem_filter.mpr ⟨ha, by simp⟩)
  have hkey : Record.key q.grouped.groupCols (q.recordOf (q.key r)) = q.key r :=
    key_recordOf r
  simp only [hkey] at hcell
  exact Option.some.inj hcell

end Rows

section Shown

variable [LinearOrder V] [Unicode]

/--
The response has one row for each tuple of the group columns that occurs in
the sources, with the values over the records of all sources.
-/
def ShowsTuples (q : GroupQuery) (X : Numbers ℤ V) (env : Env V) (query : Str)
    (parts : List (List Record)) (fed : FederatedResult V) : Prop :=
  ∃ clauses page, parseClauses query = .ok clauses ∧
    (mergedResult env query fed >>= sortedWindow clauses {}) = .ok page ∧
    (q.shownKeys page).Perm (parts.flatten.map q.key).dedup ∧
    ∀ b ∈ page, ∀ row ∈ b.rows, q.untagged row =
    q.untagged (q.wholeRow X parts.flatten
        (keyTexts (q.groupCols.filterMap b.schema.indexOf) row))

def ReturnsTuples [SqlParser] (q : GroupQuery) (X : Numbers ℤ V)
    (fields : Schema) (base : SubQuery) (query : Str) (refs : List TableRef)
    (parts : List (List Record)) : Prop :=
  ∀ env s, q.Answered X fields base refs parts env s →
    ∃ fed, (executeUnion env query "ppl" refs s).result = .ok fed ∧
      q.ShowsTuples X env query parts fed

omit [LinearOrder V] in
theorem page_of_plain (env : Env V) {query : Str} (hplain : PlainQuery query)
    (fed : FederatedResult V) :
    (mergedResult env query fed >>= sortedWindow noClauses {}) =
      .ok fed.batches := by
  rw [mergedResult_plain env hplain.noGroups hplain.noHaving]
  change (applyOrderBy [] fed.batches >>= fun sorted =>
    applyDistinct false sorted >>= fun distinct =>
      takeWindow 0 none distinct) = _
  cases fed.batches <;> rfl

variable (hhaving : q.having = none)
  (layout : Layout schema q.items q.groupCols)

omit [LinearOrder V] [Unicode] [ArrowKernels V] [FloatOps] in
include hhaving in
theorem passes_of_none (group : List Record) : q.passes group = true := by
  rw [passes, hhaving, Option.all_none]

omit [LinearOrder V] [Unicode] [ArrowKernels V] [FloatOps] in
include hhaving in
theorem passing_of_none (part : List Record) : q.passing part = part :=
  filter_eq_self.mpr fun _ _ => passes_of_none hhaving _

include hhaving layout

variable {parts : List (List Record)}

omit [LinearOrder V] [Unicode] in
theorem groupRows_tuples_perm (hapart : Apart q.key parts)
    {groups : List (List (Row V))}
    (h : List.Forall₂ (q.GroupRows X) parts groups) : (groups.flatten.map
        (keyTexts (q.groupCols.filterMap schema.indexOf))).Perm
      (parts.flatten.map q.key).dedup := by
  refine (groupRows_keys_perm layout hapart h).trans (List.Perm.of_eq ?_)
  exact filter_eq_self.mpr fun k _ => passes_of_none hhaving _

variable {answers : List (List (Row V))} {fed : FederatedResult V}

theorem showsTuples_of_apart (env : Env V) {query : Str}
    (hplain : PlainQuery query)
    (hclauses : parseClauses query = .ok noClauses) (hapart : Apart q.key parts)
    (hfits : ∀ part ∈ parts, (part.map q.key).dedup.length ≤ q.sourceLimit)
    (hfed : q.Collects X schema parts answers fed) :
    q.ShowsTuples X env query parts fed := by
  obtain ⟨groups, hgroups, htops⟩ := exists_groupRows hfed.answered
  refine ⟨noClauses, fed.batches, hclauses, page_of_plain env hplain fed,
    ?_, ?_⟩
  · have hall : ∀ part ∈ parts,
        ((q.passing part).map q.key).dedup.length ≤ q.sourceLimit := by
      intro part hpart
      rw [passing_of_none hhaving]
      exact hfits part hpart
    rw [shownKeys_eq hfed.uniform, hfed.rows]
    exact ((answers_perm_groups layout hall hgroups htops).map _).trans
      (groupRows_tuples_perm hhaving layout hapart hgroups)
  · intro b hb row hrow
    have hmem : row ∈ answers.flatten :=
      hfed.rows ▸ mem_flatMap.mpr ⟨b, hb, hrow⟩
    obtain ⟨part, hpart, tag, r, rfl, hkey, -⟩ :=
      row_of_mem_answers hfed.answered hmem
    have htexts : keyTexts (q.groupCols.filterMap schema.indexOf)
        (q.grouped.answerRow X part tag r) = q.key r :=
      keyTexts_answerRow (q := q.grouped) layout part tag r
    rw [hfed.uniform b hb, htexts]
    exact untagged_answerRow layout tag (groupOf_of_apart hapart hpart hkey)

end Shown

end GroupQuery

open GroupQuery

/-! ## Tuples in two sources -/

theorem Aggregate.value_ones (a : Aggregate) {records : List Record}
    (h : ∀ r ∈ records, ∀ c, r.number c = 1) :
    a.value records = records.length := by
  cases a with
  | count => rfl
  | sum column =>
    have hones : records.map (·.number column) = records.map fun _ => 1 :=
      map_congr_left fun r hr => h r hr column
    simp [Aggregate.value, hones]

theorem lt_sum_of_mem {ns : List ℤ} (hpos : ∀ n ∈ ns, 0 < n)
    (hlength : 2 ≤ ns.length) {n : ℤ} (hn : n ∈ ns) : n < ns.sum := by
  have hperm := perm_cons_erase hn
  rw [hperm.sum_eq, sum_cons]
  have hrest : 0 < (ns.erase n).sum := by
    refine sum_pos _ (fun m hm => hpos m (mem_of_mem_erase hm)) ?_
    intro hnil
    have := length_erase_of_mem hn
    rw [hnil, length_nil] at this
    omega
  omega

theorem GroupQuery.keys_renumber (q : GroupQuery) (f : Record → Str → ℤ)
    {part : List Record}
    {parts : List (List Record)} (h : part ∈ renumber f parts) :
    ∃ part' ∈ parts, part.map q.key = part'.map q.key := by
  obtain ⟨part', hpart', rfl⟩ := mem_map.mp h
  exact ⟨part', hpart', by rw [map_map]; rfl⟩

section Main

variable {V : Type} [ArrowKernels V] [FloatOps] [LinearOrder V] [Unicode]
  {q : GroupQuery} {X : Numbers ℤ V} {schema : Schema}

variable {parts : List (List Record)}

omit [LinearOrder V] [Unicode] in
theorem GroupQuery.apart_of_whole_rows (hX : Function.Injective X.cell)
    {label : Str} {a : Aggregate} (ha : .measure label a ∈ q.items)
    (hones : ∀ part ∈ parts, ∀ r ∈ part, ∀ c, r.number c = 1)
    (hrows : ∀ k ∈ parts.flatten.map q.key, ∃ part ∈ parts, ∃ tag r,
      q.key r = k ∧ k ∈ part.map q.key ∧
      q.untagged (q.grouped.answerRow X part tag r) =
        q.untagged (q.wholeRow X parts.flatten k)) :
    Apart q.key parts := by
  by_contra hshared
  let size : List Record → ℤ := fun group => group.length
  obtain ⟨k, hk⟩ := two_le_length_partials size hshared
  have hmem := mem_of_partials_ne_nil
    (ne_nil_of_length_pos (Nat.lt_of_lt_of_le Nat.two_pos hk))
  obtain ⟨part, hpart, tag, r, rfl, hkey, hrow⟩ := hrows k hmem
  have hflat : ∀ r ∈ parts.flatten, ∀ c, r.number c = 1 := by
    intro r hr
    obtain ⟨part, hpart, hr⟩ := mem_flatten.mp hr
    exact hones part hpart r hr
  have hsize : size (groupOf q.key (q.key r) part) =
      size (groupOf q.key (q.key r) parts.flatten) := by
    have hpartOnes : ∀ x ∈ groupOf q.key (q.key r) part, ∀ c, x.number c = 1 :=
      fun x hx => hones part hpart x (mem_of_mem_filter hx)
    have hflatOnes : ∀ x ∈ groupOf q.key (q.key r) parts.flatten, ∀ c,
        x.number c = 1 := fun x hx => hflat x (mem_of_mem_filter hx)
    have hcell := hX (cell_of_untagged hrow ha)
    rwa [a.value_ones hpartOnes, a.value_ones hflatOnes] at hcell
  have hpos : ∀ n ∈ partials q.key size (q.key r) parts, 0 < n := by
    intro n hn
    obtain ⟨part', -, hvalue⟩ := mem_filterMap.mp hn
    split at hvalue
    · rename_i hk'
      cases hvalue
      obtain ⟨r', hr', heq⟩ := mem_map.mp hk'
      exact Int.natCast_pos.mpr
        (length_pos_of_mem (mem_filter.mpr ⟨hr', decide_eq_true heq⟩))
    · cases hvalue
  have hlt := lt_sum_of_mem hpos hk
    (mem_filterMap.mpr ⟨part, hpart, if_pos hkey⟩)
  rw [sum_partials rfl (fun xs ys => by simp [size])] at hlt
  exact absurd hsize hlt.ne

theorem GroupQuery.apart_of_showsTuples (hhaving : q.having = none)
    (layout : Layout schema q.items q.groupCols)
    (hX : Function.Injective X.cell) {label : Str}
    {a : Aggregate} (ha : .measure label a ∈ q.items) (env : Env V)
    {query : Str}
    (hplain : PlainQuery query) (hclauses : parseClauses query = .ok noClauses)
    (hones : ∀ part ∈ parts, ∀ r ∈ part, ∀ c, r.number c = 1)
    {answers : List (List (Row V))} {fed : FederatedResult V}
    (hfed : q.Collects X schema parts answers fed)
    (h : q.ShowsTuples X env query parts fed) :
    Apart q.key parts ∧ ∀ part ∈ parts,
    (part.map q.key).dedup.length ≤ q.sourceLimit := by
  obtain ⟨clauses, page, hclauses', hpage, hkeys, hrows⟩ := h
  cases Except.ok.inj (hclauses'.symm.trans hclauses)
  cases Except.ok.inj (hpage.symm.trans (page_of_plain env hplain fed))
  rw [shownKeys_eq hfed.uniform, hfed.rows] at hkeys
  have hapart : Apart q.key parts := by
    refine apart_of_whole_rows hX ha hones fun k hk => ?_
    obtain ⟨row, hrow, htexts⟩ :=
      mem_map.mp (hkeys.mem_iff.mpr (mem_dedup.mpr hk))
    obtain ⟨part, hpart, tag, r, rfl, hkey, -⟩ :=
      row_of_mem_answers hfed.answered hrow
    have hr : q.key r = k := (keyTexts_answerRow (X := X) (q := q.grouped)
      layout part tag r).symm.trans htexts
    refine ⟨part, hpart, tag, r, hr, hr ▸ hkey, ?_⟩
    rw [← hfed.rows] at hrow
    obtain ⟨b, hb, hbrow⟩ := mem_flatMap.mp hrow
    have := hrows b hb _ hbrow
    rw [hfed.uniform b hb] at this
    exact htexts ▸ this
  refine ⟨hapart, fun part hpart => ?_⟩
  obtain ⟨groups, hgroups, htops⟩ := exists_groupRows hfed.answered
  have hlength : answers.flatten.length = groups.flatten.length := by
    have hall := (groupRows_tuples_perm hhaving layout hapart hgroups).length_eq
    have hshown := hkeys.length_eq
    rw [length_map] at hall hshown
    exact hshown.trans hall.symm
  obtain ⟨rows, hrows, hgroup⟩ := exists_of_forall₂ hgroups.flip hpart
  rw [← passing_of_none hhaving part, ←
    GroupQuery.GroupRows.length_eq layout hgroup]
  exact TopN.length_le_of_length_eq htops hlength rows hrows

end Main

section Example

attribute [local instance] asciiUnicode wholeDoubles numberCells

def orderCountsText : Str :=
  "source = a.t, b.t | stats count() as n by customer"

def orderCountsSql : Str :=
  "SELECT customer, count(*) AS n FROM a.t GROUP BY customer UNION ALL " ++
    "SELECT customer, count(*) AS n FROM b.t GROUP BY customer"

def orderCountsQuery : GroupQuery where
  groupCols := ["customer"]
  columns := [.key "customer", .measure "n" .count]
  having := none
  orderBy := []
  limit := none

def orderCountsSelect (table : Str) : Select :=
  .mk [.unnamedExpr (.identifier { value := "customer" }),
      .exprWithAlias (.function {
        name := [.identifier { value := "count" }]
        args := .list none [.wildcard] }) { value := "n" }]
    (fromTable table) none
    (.expressions [.identifier { value := "customer" }]) none

def orderCountsParsed : Query :=
  .mk (.setOperation (.select (orderCountsSelect "a.t"))
    (.select (orderCountsSelect "b.t"))) none none

def orderCountsBase : SubQuery where
  table := "t"
  projections := ["customer"]
  aggregations := [⟨.count, none, "n"⟩]
  groupBy := ["customer"]

def oneOrderEach : Env Str :=
  { Env.quiet Str with
    execute := fun _ _ _ => .ok [{
      schema := frequentFields
      rows := [[some "ann", some "1"]]
      fits := by decide }] }

def askPpl (env : Env Str) (query : Str) : Request Str where
  env
  body := { query, format := "ppl" }

private theorem orderCountsLayout : Layout (frequentFields ++ [datasourceField])
    orderCountsQuery.items ["customer"] := frequentLayout

end Example

end Fuse.Server
