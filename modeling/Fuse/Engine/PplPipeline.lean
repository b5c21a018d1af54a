import Fuse.Engine.Ppl
import Fuse.Engine.SortOrder
import Fuse.Foundation.Runs
import Fuse.Foundation.KeyOrder

/-!
# Pipelines and the `SELECT` they become

A pipeline applies its stages one after another.  `ppl_to_sql` folds them into
one `SELECT`, whose clauses are applied in the order of SQL: `WHERE`, then
`ORDER BY`, then `LIMIT`, then the select list.  The two agree for all
arguments of the stages exactly if every kind of stage occurs at most once,
rows are selected and sorted before they are cut or projected, and no `fields`
excludes columns.
-/

namespace Fuse.Engine.Ppl

open Foundation StableSort List

inductive Stage where
  | filter (condition : Str)
  | sort (fields : List SortField)
  | head (n : Nat)
  | keep (names : List Str)
  | drop (names : List Str)
  deriving DecidableEq, Repr

inductive StageKind where
  | filter
  | sort
  | head
  | keep
  | drop
  deriving DecidableEq, Repr

namespace Stage

def kind : Stage → StageKind
  | filter _ => .filter
  | sort _ => .sort
  | head _ => .head
  | keep _ => .keep
  | drop _ => .drop

def toCommand : Stage → PplCommand
  | filter condition => .filter condition
  | sort fields => .sort fields
  | head n => .head n
  | keep names => .fields true names
  | drop names => .fields false names

def condition? : Stage → Option Str
  | filter condition => some condition
  | _ => none

def sortFields? : Stage → Option (List SortField)
  | sort fields => some fields
  | _ => none

def limit? : Stage → Option Nat
  | head n => some n
  | _ => none

def names? : Stage → Option (List Str)
  | keep names => some names
  | _ => none

end Stage

open Stage

section Rows

variable {V : Type}

abbrev NamedRow (V : Type) := List (Str × Option V)

def NamedRow.cell (row : NamedRow V) (name : Str) : Option V :=
  (row.lookup name).join

def NamedRow.project (names : List Str) (row : NamedRow V) : NamedRow V :=
  names.map fun name => (name, row.cell name)

def NamedRow.without (names : List Str) (row : NamedRow V) : NamedRow V :=
  row.filter fun cell => cell.1 ∉ names

def sortKey (fields : List SortField) (row : NamedRow V) : List (ColumnKey V) :=
  fields.map fun f => columnKey f.descending (row.cell f.field)

variable [LinearOrder V] (holds : Str → NamedRow V → Bool)

/-- What a stage does to the rows it is given; `holds` reads conditions. -/
def Stage.apply : Stage → List (NamedRow V) → List (NamedRow V)
  | .filter condition, rows => rows.filter (holds condition)
  | .sort fields, rows => sortBy (sortKey fields) rows
  | .head n, rows => rows.take n
  | .keep names, rows => rows.map (NamedRow.project names)
  | .drop names, rows => rows.map (NamedRow.without names)

def pipeline (table : List (NamedRow V)) (stages : List Stage) :
    List (NamedRow V) :=
  runSteps (apply holds) table stages

end Rows

/-! ## The statement -/

structure PlainSelect where
  projection : Option (List Str)
  table : QualifiedTable
  condition : Option Str
  orderBy : Option (List SortField)
  limit : Option Nat

namespace PlainSelect

def sortText (fields : List SortField) : Str := commaJoin (fields.map fun f =>
    f.field ++ if f.descending then " DESC" else " ASC")

def toText (select : PlainSelect) : Str :=
  "SELECT " ++ (select.projection.map commaJoin).getD "*" ++ " FROM " ++
    select.table.toText ++ optionalClause " WHERE " select.condition ++
    optionalClause " ORDER BY " (select.orderBy.map sortText) ++
    optionalClause " LIMIT " (select.limit.map Str.ofNat)

def rows {V : Type} [LinearOrder V] (holds : Str → NamedRow V → Bool)
    (select : PlainSelect) (table : List (NamedRow V)) : List (NamedRow V) :=
  let selected := select.condition.elim table fun c => table.filter (holds c)
  let sorted := select.orderBy.elim selected fun fields =>
    sortBy (sortKey fields) selected
  let cut := select.limit.elim sorted fun n => sorted.take n
  select.projection.elim cut fun names => cut.map (NamedRow.project names)

end PlainSelect

open PlainSelect

/-- The clauses `ppl_to_sql` finds: of each kind of stage the first. -/
def selectOf (source : QualifiedTable) (stages : List Stage) : PlainSelect where
  projection := stages.findSome? names?
  table := source
  condition := stages.findSome? condition?
  orderBy := stages.findSome? sortFields?
  limit := stages.findSome? limit?

variable {α : Type} {f : PplCommand → Option α}

theorem findFirst_stages {g : Stage → Option α} (h : ∀ s, f s.toCommand = g s)
    (stages : List Stage) : findFirst f (stages.map toCommand) =
      stages.findSome? g := by
  rw [findFirst, findSome?_map]
  congr 1
  exact funext h

theorem findFirst_none (h : ∀ s : Stage, f s.toCommand = none)
    (stages : List Stage) :
    findFirst f (stages.map toCommand) = none :=
  (findFirst_stages h stages).trans (by simp)

theorem filterMap_none (h : ∀ s : Stage, f s.toCommand = none)
    (stages : List Stage) : (stages.map toCommand).filterMap f = [] := by
  rw [filterMap_eq_nil_iff]
  intro command hcommand
  obtain ⟨s, -, rfl⟩ := mem_map.mp hcommand
  exact h s

section Translation

variable (source : QualifiedTable) (stages : List Stage)

theorem findProjection_stages : findProjection (stages.map toCommand) =
      (stages.findSome? names?).map commaJoin := by
  rw [map_findSome?]
  exact findFirst_stages (fun s => by cases s <;> rfl) stages

theorem findWhere_stages :
    findWhere (stages.map toCommand) = stages.findSome? condition? :=
  findFirst_stages (fun s => by cases s <;> rfl) stages

theorem findSort_stages : findSort (stages.map toCommand) =
      (stages.findSome? sortFields?).map sortText := by
  rw [map_findSome?]
  exact findFirst_stages (fun s => by cases s <;> rfl) stages

theorem findHead_stages :
    findHead (stages.map toCommand) = stages.findSome? limit? :=
  findFirst_stages (fun s => by cases s <;> rfl) stages

theorem clauses_stages :
    clauses (stages.map toCommand) =
      { select := none
        groupBy := none
        orderBy := (stages.findSome? sortFields?).map sortText
        limit := stages.findSome? limit? } := by
  have htop : findTop (stages.map toCommand) = none :=
    findFirst_none (fun s => by cases s <;> rfl) stages
  have hrare : findRare (stages.map toCommand) = none :=
    findFirst_none (fun s => by cases s <;> rfl) stages
  have hstats : findStats (stages.map toCommand) = none :=
    findFirst_none (fun s => by cases s <;> rfl) stages
  simp [clauses, htop, hrare, hstats, findSort_stages, findHead_stages]

private theorem plainSelect_stages : plainSelect (stages.map toCommand) =
      ((stages.findSome? names?).map commaJoin).getD "*" := by
  have hevals : evalExprs (stages.map toCommand) = [] := by
    rw [evalExprs, filterMap_none (fun s => by cases s <;> rfl)]
    rfl
  have hrenames : findRenames (stages.map toCommand) = [] := by
    rw [findRenames, filterMap_none (fun s => by cases s <;> rfl)]
    rfl
  simp [plainSelect, hevals, hrenames, findProjection_stages]

theorem pplToSql_stages :
    pplToSql ⟨[source], stages.map toCommand⟩ =
      .ok (selectOf source stages).toText := by
  have hjoin : ∀ separator text : Str,
      Str.joinWith separator [text] = text := by
    intro separator text
    simp [Str.joinWith]
  have hnone : ∀ keyword : Str, optionalClause keyword none = [] := fun _ => rfl
  unfold pplToSql toText selectOf
  rw [if_neg (by simp)]
  dsimp only
  rw [clauses_stages, plainSelect_stages, findWhere_stages]
  rw [map_cons, map_nil, hjoin, hnone, append_nil]
  rfl

end Translation

/-! ## Stages in the order of the clauses -/

/-- The stages whose clause is applied behind `WHERE` and `ORDER BY`. -/
def StageKind.isLate : StageKind → Bool
  | .head | .keep => true
  | _ => false

def InClauseOrder (kinds : List StageKind) : Prop :=
  (kinds.Pairwise fun k k' => k ≠ k' ∧ (k.isLate → k'.isLate)) ∧
    StageKind.drop ∉ kinds

instance (kinds : List StageKind) : Decidable (InClauseOrder kinds) :=
  inferInstanceAs (Decidable (_ ∧ _))

theorem findSome?_of_kind {f : Stage → Option α} {k : StageKind}
    (hf : ∀ s, s.kind ≠ k → f s = none)
    {stages : List Stage} (h : k ∉ stages.map kind) :
    stages.findSome? f = none := by
  rw [findSome?_eq_none_iff]
  intro s hs
  refine hf s fun hk => h ?_
  exact hk ▸ mem_map_of_mem hs

section Finders

variable {stages : List Stage}

theorem condition?_of_kind (h : .filter ∉ stages.map kind) :
    stages.findSome? condition? = none :=
  findSome?_of_kind (fun s hs => by cases s <;> simp_all [condition?, kind]) h

theorem sortFields?_of_kind (h : .sort ∉ stages.map kind) :
    stages.findSome? sortFields? = none :=
  findSome?_of_kind (fun s hs => by cases s <;> simp_all [sortFields?, kind]) h

theorem limit?_of_kind (h : .head ∉ stages.map kind) :
    stages.findSome? limit? = none :=
  findSome?_of_kind (fun s hs => by cases s <;> simp_all [limit?, kind]) h

theorem names?_of_kind (h : .keep ∉ stages.map kind) :
    stages.findSome? names? = none :=
  findSome?_of_kind (fun s hs => by cases s <;> simp_all [names?, kind]) h

end Finders

section Order

variable {V : Type} [LinearOrder V] (holds : Str → NamedRow V → Bool)

theorem pipeline_cons (table : List (NamedRow V)) (s : Stage)
    (stages : List Stage) : pipeline holds table (s :: stages) =
      pipeline holds (s.apply holds table) stages := rfl

theorem early_not_mem {k : StageKind} (hlate : k.isLate)
    {kinds : List StageKind}
    (h : ∀ k' ∈ kinds, k ≠ k' ∧ (k.isLate → k'.isLate)) :
    .filter ∉ kinds ∧ .sort ∉ kinds :=
  ⟨fun hmem => by simpa [StageKind.isLate] using (h _ hmem).2 hlate,
    fun hmem => by simpa [StageKind.isLate] using (h _ hmem).2 hlate⟩

attribute [local simp] selectOf rows apply condition? sortFields? limit? names?
  findSome?_cons in
theorem selectOf_rows_of_inClauseOrder (source : QualifiedTable)
    {stages : List Stage}
    (h : InClauseOrder (stages.map kind)) (table : List (NamedRow V)) :
    (selectOf source stages).rows holds table =
      pipeline holds table stages := by
  induction stages generalizing table with
  | nil => rfl
  | cons s stages ih =>
    obtain ⟨hpairwise, hdrop⟩ := h
    rw [map_cons] at hpairwise hdrop
    obtain ⟨hfirst, hrest⟩ := pairwise_cons.mp hpairwise
    have hsame : s.kind ∉ stages.map kind := fun hmem => (hfirst _ hmem).1 rfl
    have hnext := ih ⟨hrest, fun hmem => hdrop (by simp [hmem])⟩
    rw [pipeline_cons, ← hnext]
    cases s with
    | filter c => simp [condition?_of_kind hsame]
    | sort fields =>
      cases hcondition : stages.findSome? condition? <;>
        simp [hcondition, sortFields?_of_kind hsame, filter_sortBy]
    | head n =>
      obtain ⟨hfilter, hsort⟩ := early_not_mem rfl hfirst
      simp [limit?_of_kind hsame, condition?_of_kind hfilter,
        sortFields?_of_kind hsort]
    | keep names =>
      obtain ⟨hfilter, hsort⟩ := early_not_mem rfl hfirst
      cases hlimit : stages.findSome? limit? <;>
        simp [hlimit, names?_of_kind hsame, condition?_of_kind hfilter,
          sortFields?_of_kind hsort]
    | drop names => exact absurd mem_cons_self hdrop

end Order

/-! ## Stages out of order -/

def PlainSelect.early (select : PlainSelect) : List Stage :=
  (select.condition.map Stage.filter).toList ++
    (select.orderBy.map Stage.sort).toList

def PlainSelect.late (select : PlainSelect) : List Stage :=
  (select.limit.map head).toList ++ (select.projection.map keep).toList

def PlainSelect.stages (select : PlainSelect) : List Stage :=
  select.early ++ select.late

theorem PlainSelect.rows_eq_pipeline {V : Type} [LinearOrder V]
    (holds : Str → NamedRow V → Bool)
    (select : PlainSelect) (table : List (NamedRow V)) :
    select.rows holds table = pipeline holds table select.stages := by
  obtain ⟨projection, -, condition, orderBy, limit⟩ := select
  cases condition <;> cases orderBy <;> cases limit <;> cases projection <;>
    rfl

section First

variable {α : Type} {find : Stage → Option α} {make : α → Stage}

theorem mem_of_found (hfind : ∀ s v, find s = some v ↔ s = make v)
    (hkind : ∀ s v, s.kind = (make v).kind → ∃ v', s = make v')
    {as bs : List Stage} {s : Stage}
    (h : s ∈ (((as ++ bs).findSome? find).map make).toList) :
    s ∈ as ∨ s ∈ bs ∧ s.kind ∉ as.map kind := by
  obtain ⟨v, hv, rfl⟩ := Option.map_eq_some_iff.mp (Option.mem_toList.mp h)
  rw [findSome?_append, Option.or_eq_some_iff] at hv
  rcases hv with hv | ⟨hnone, hv⟩
  · obtain ⟨s, hs, hfound⟩ := exists_of_findSome?_eq_some hv
    exact Or.inl ((hfind s v).mp hfound ▸ hs)
  obtain ⟨s, hs, hfound⟩ := exists_of_findSome?_eq_some hv
  refine Or.inr ⟨(hfind s v).mp hfound ▸ hs, fun hmem => ?_⟩
  obtain ⟨s', hs', heq⟩ := mem_map.mp hmem
  obtain ⟨v', rfl⟩ := hkind s' v heq
  have := findSome?_eq_none_iff.mp hnone _ hs'
  rw [(hfind _ v').mpr rfl] at this
  cases this

end First

theorem mem_stages_selectOf {source : QualifiedTable} {as bs : List Stage}
    {s : Stage} (h : s ∈ (selectOf source (as ++ bs)).stages) :
    (s ∈ as ∨ s ∈ bs ∧ s.kind ∉ as.map kind) ∧ s.kind ≠ .drop := by
  simp only [stages, early, late, mem_append] at h
  rcases h with (h | h) | h | h
  all_goals
    refine ⟨mem_of_found (fun s v => ?_) (fun s v => ?_) h, ?_⟩
    · cases s <;> simp [condition?, sortFields?, limit?, names?]
    · cases s <;> simp [kind]
    · obtain ⟨c, -, rfl⟩ := Option.map_eq_some_iff.mp (Option.mem_toList.mp h)
      exact nofun

section Divergence

variable {V : Type} [LinearOrder V] {holds : Str → NamedRow V → Bool}

variable {k : StageKind} {rows : List (NamedRow V)}

/--
A stage that changes the table, behind a stage of its kind that does not: the
statement has the clause of the first one only.
-/
theorem rows_ne_pipeline_of_repeated (source : QualifiedTable)
    {first later : StageKind → Stage}
    (hfirst : ∀ k, (first k).kind = k) (hlater : ∀ k, (later k).kind = k)
    {as bs : List StageKind}
    (hk : k ∈ as ∨ k = .drop) (hmem : k ∈ bs) {table : List (NamedRow V)}
    {J : List (NamedRow V) → Prop} (hfix : ∀ k',
      (first k').apply holds table = table)
    (hfix' : ∀ k', k' ≠ k → (later k').apply holds table = table)
    (hturn : J ((later k).apply holds table))
    (hJ : ∀ k' rows, J rows → J ((later k').apply holds rows))
    (htable : ¬ J table) :
    (selectOf source (as.map first ++ bs.map later)).rows holds table ≠
      pipeline holds table (as.map first ++ bs.map later) := by
  have hrows : (selectOf source (as.map first ++ bs.map later)).rows holds
      table = table := by
    rw [rows_eq_pipeline]
    refine runSteps_inv (I := (· = table)) ?_ rfl
    rintro s hs _ rfl
    obtain ⟨hs | ⟨hs, hkind⟩, hdrop⟩ := mem_stages_selectOf hs
    · obtain ⟨k', -, rfl⟩ := mem_map.mp hs
      exact hfix k'
    · obtain ⟨k', -, rfl⟩ := mem_map.mp hs
      rw [hlater] at hkind hdrop
      refine hfix' k' ?_
      rintro rfl
      refine hk.elim (fun hk => hkind ?_) hdrop
      rw [map_map]
      exact mem_map.mpr ⟨k', hk, hfirst k'⟩
  have hpipeline : J (pipeline holds table (as.map first ++ bs.map later)) := by
    have hbefore : runSteps (fun k => apply holds (first k)) table as = table :=
      runSteps_inv (I := (· = table)) (by rintro k' - _ rfl; exact hfix k') rfl
    rw [pipeline, runSteps_append, runSteps_map, runSteps_map, hbefore]
    refine runSteps_turns (fun k' _ => ?_) (fun k' _ => hJ k') hmem hturn
    by_cases hk' : k' = k
    · exact .inr (hk' ▸ hturn)
    · exact .inl (hfix' k' hk')
  rw [hrows]
  exact fun heq => htable (heq ▸ hpipeline)

/-! The stages of two columns with equal values. -/

def evenRow (v : V) : NamedRow V := [("a", some v), ("b", some v)]

def idleStage : StageKind → Stage
  | .filter => .filter "p"
  | .sort => .sort [⟨"z", false⟩]
  | .head => .head 2
  | .keep => .keep ["a", "b"]
  | .drop => .drop ["z"]

theorem idleStage_kind (k : StageKind) :
    (idleStage k).kind = k := by cases k <;> rfl

def onlyAsks (q : NamedRow V → Bool) (condition : Str) (row : NamedRow V) :
    Bool :=
  if condition = "q" then q row else true

theorem sortBy_of_equal {fields : List SortField}
    (h : ∀ a ∈ rows, ∀ b ∈ rows, ∀ f ∈ fields,
      a.cell f.field = b.cell f.field) :
    sortBy (sortKey fields) rows = rows := by
  refine sortBy_of_sorted (pairwise_of_forall_mem_list ?_)
  intro a ha b hb
  refine le_of_eq (map_congr_left fun f hf => ?_)
  rw [h a ha b hb f hf]

theorem idleStage_apply (q : NamedRow V → Bool) (k : StageKind)
    (hlength : rows.length ≤ 2) (hrows : ∀ r ∈ rows, ∃ v, r = evenRow v) :
    (idleStage k).apply (onlyAsks q) rows = rows := by
  cases k with
  | filter => exact filter_eq_self.mpr fun _ _ => rfl
  | sort =>
    refine sortBy_of_equal fun a ha b hb f hf => ?_
    obtain ⟨v, rfl⟩ := hrows a ha
    obtain ⟨w, rfl⟩ := hrows b hb
    cases mem_singleton.mp hf
    rfl
  | head => exact take_of_length_le hlength
  | keep | drop =>
    refine (map_congr_left fun r hr => ?_).trans (map_id rows)
    obtain ⟨v, rfl⟩ := hrows r hr
    rfl

def withStage (s : Stage) (k : StageKind) : Stage :=
  if k = s.kind then s else idleStage k

theorem withStage_kind (s : Stage) (k : StageKind) :
    (withStage s k).kind = k := by
  unfold withStage
  split
  · exact Eq.symm ‹_›
  · exact idleStage_kind k

theorem withStage_self (s : Stage) : withStage s s.kind = s := if_pos rfl

variable {s : Stage} {condition column : Str} {select : PlainSelect}

theorem withStage_of_ne (h : k ≠ s.kind) : withStage s k = idleStage k :=
  if_neg h

theorem idle_one (q : NamedRow V → Bool) (k : StageKind) (v : V) :
    (idleStage k).apply (onlyAsks q) [evenRow v] = [evenRow v] :=
  idleStage_apply q k (by simp) (by simp)

theorem idle_two (q : NamedRow V → Bool) (k : StageKind) (v w : V) :
    (idleStage k).apply (onlyAsks q) [evenRow v, evenRow w] =
      [evenRow v, evenRow w] :=
  idleStage_apply q k (by simp) (by simp)

theorem sortKey_evenRow_lt {x y : V} (h : x < y) :
    sortKey [⟨"a", false⟩] (evenRow x) < sortKey [⟨"a", false⟩] (evenRow y) ∧
      sortKey [⟨"a", true⟩] (evenRow y) < sortKey [⟨"a", true⟩]
      (evenRow x) := by
  have hcell : ∀ v : V, (evenRow v).cell "a" = some v := fun _ => rfl
  have hcells : (x : WithBot V) < (y : WithBot V) := WithBot.coe_lt_coe.mpr h
  constructor
  · simp only [sortKey, map_cons, map_nil, hcell]
    exact cons_lt_cons_iff.mpr (Or.inl (Sum.Lex.inl_lt_inl_iff.mpr hcells))
  · simp only [sortKey, map_cons, map_nil, hcell]
    exact cons_lt_cons_iff.mpr (Or.inl (Sum.Lex.inr_lt_inr_iff.mpr
      (OrderDual.toDual_lt_toDual.mpr hcells)))

variable (source : QualifiedTable) {as bs : List StageKind} {x y : V}

def Differs (kinds : List StageKind) : Prop :=
  ∃ (stages : List Stage) (holds : Str → NamedRow V → Bool)
    (table : List (NamedRow V)), stages.map kind = kinds ∧
      (selectOf source stages).rows holds table ≠ pipeline holds table stages

theorem differs_of_stages (s s' : Stage) (q : NamedRow V → Bool)
    (table : List (NamedRow V))
    (J : List (NamedRow V) → Prop) (hk : s'.kind ∈ as ∨ s'.kind = .drop)
    (hmem : s'.kind ∈ bs)
    (hidle : ∀ k, (idleStage k).apply (onlyAsks q) table = table)
    (hsame : s.apply (onlyAsks q) table = table)
    (hturn : J (s'.apply (onlyAsks q) table)) (htable : ¬ J table)
    (hJ : ∀ k ≠ s'.kind, ∀ rows, J rows →
      J ((idleStage k).apply (onlyAsks q) rows))
    (hagain : ∀ rows, J rows → J (s'.apply (onlyAsks q) rows)) :
    Differs (V := V) source (as ++ bs) := by
  refine ⟨as.map (withStage s) ++ bs.map (withStage s'), onlyAsks q, table,
    by simp [Function.comp_def, withStage_kind],
    rows_ne_pipeline_of_repeated source (withStage_kind s)
      (withStage_kind s') hk hmem (J := J) ?_ ?_ ?_ ?_ htable⟩
  · intro k
    by_cases hs : k = s.kind
    · rw [hs, withStage_self, hsame]
    · rw [withStage_of_ne hs, hidle]
  · intro k hs
    rw [withStage_of_ne hs, hidle]
  · rwa [withStage_self]
  · intro k rows hrows
    by_cases hs : k = s'.kind
    · rw [hs, withStage_self]
      exact hagain rows hrows
    · rw [withStage_of_ne hs]
      exact hJ k hs rows hrows

omit [LinearOrder V] in
private theorem evenRow_injective : Function.Injective (evenRow (V := V)) := by
  intro v w h
  simpa [evenRow] using h

theorem differs_of_repeated (hxy : x < y) (hk : k ∈ as ∨ k = .drop)
    (hmem : k ∈ bs) : Differs (V := V) source (as ++ bs) := by
  obtain ⟨hasc, hdesc⟩ := sortKey_evenRow_lt hxy
  have hne : evenRow x ≠ evenRow y := evenRow_injective.ne hxy.ne
  cases k with
  | filter =>
    refine differs_of_stages source (.filter "p") (.filter "q") (fun _ => false)
      [evenRow x]
      (· = []) hk hmem (idle_one _ · x) rfl rfl nofun ?_ ?_
    · rintro k - _ rfl
      cases k <;> rfl
    · rintro _ rfl
      rfl
  | sort =>
    refine differs_of_stages source (.sort [⟨"a", false⟩]) (.sort [⟨"a", true⟩])
      (fun _ => true)
      [evenRow x, evenRow y] (· = [evenRow y, evenRow x]) hk hmem
        (idle_two _ · x y)
      (sortBy_of_sorted (by simpa using hasc.le)) (sortBy_pair_of_lt hdesc)
        (by simp [hne]) ?_ ?_
    · rintro k - _ rfl
      exact idle_two _ k y x
    · rintro _ rfl
      exact sortBy_of_sorted (by simpa using hdesc.le)
  | head =>
    refine differs_of_stages source (.head 2) (.head 1) (fun _ => true)
      [evenRow x, evenRow y] (· = [evenRow x]) hk hmem (idle_two _ · x y)
      rfl rfl (by simp) ?_ ?_
    · rintro k - _ rfl
      exact idle_one _ k x
    · rintro _ rfl
      rfl
  | keep =>
    refine differs_of_stages source (.keep ["a", "b"]) (.keep ["b"])
      (fun _ => true) [evenRow x]
      (· = [[("b".toList, some x)]]) hk hmem
        (idle_one _ · x) rfl rfl (by simp [evenRow]) ?_ ?_
    · rintro k hk _ rfl
      cases k with
      | keep => exact absurd rfl hk
      | _ => rfl
    · rintro _ rfl
      rfl
  | drop =>
    refine differs_of_stages source (.drop ["z"]) (.drop ["b"]) (fun _ =>
      true) [evenRow x]
      (fun rows => rows = [[("a".toList, some x)]] ∨
      rows = [[("a".toList, some x), ("b".toList, none)]]) hk hmem (idle_one
      _ · x) rfl (Or.inl rfl)
      (by simp [evenRow]) ?_ ?_
    · rintro k hk _ (rfl | rfl)
      · cases k with
        | drop => exact absurd rfl hk
        | keep => exact Or.inr rfl
        | _ => exact Or.inl rfl
      · cases k with
        | drop => exact absurd rfl hk
        | _ => exact Or.inr rfl
    · rintro _ (rfl | rfl) <;> exact Or.inl rfl

/-! Stages that cut the rows or project them to one column. -/

def cutStage (condition column : Str) : StageKind → Stage
  | .filter => .filter condition
  | .sort => .sort [⟨column, false⟩]
  | .head => .head 1
  | .keep => .keep ["b"]
  | .drop => .drop []

theorem cutStage_kind (condition column : Str) (k : StageKind) :
    (cutStage condition column k).kind = k := by cases k <;> rfl

def asksFor (x : V) (row : NamedRow V) : Bool := row.cell "a" = some x

structure Cut (x y : V) (rows : List (NamedRow V)) : Prop where
  other : ∀ r ∈ rows, r.cell "a" ≠ some x
  equal : ∀ r ∈ rows, ∀ r' ∈ rows, r.cell "a" = r'.cell "a"
  absent : ∀ r ∈ rows, r.cell "z" = none
  first : ∀ r ∈ rows.head?, r.cell "b" = some y

omit [LinearOrder V] in
theorem Cut.nil (x y : V) : Cut x y [] := ⟨nofun, nofun, nofun, nofun⟩

omit [LinearOrder V] in
theorem Cut.take (h : Cut x y rows) : Cut x y (rows.take 1) where
  other r hr := h.other r (mem_of_mem_take hr)
  equal r hr r' hr' := h.equal r (mem_of_mem_take hr) r' (mem_of_mem_take hr')
  absent r hr := h.absent r (mem_of_mem_take hr)
  first r hr := h.first r (by simpa [head?_take] using hr)

omit [LinearOrder V] in
theorem Cut.project (h : ∀ r ∈ rows.head?, r.cell "b" = some y) :
    Cut x y (rows.map (NamedRow.project ["b"])) := by
  refine ⟨forall_mem_map.mpr fun _ _ => nofun, forall_mem_map.mpr fun _ _ =>
    forall_mem_map.mpr fun _ _ => rfl, forall_mem_map.mpr fun _ _ => rfl,
    fun r hr => ?_⟩
  rw [head?_map, Option.mem_map] at hr
  obtain ⟨row, hrow, rfl⟩ := hr
  exact h row hrow

def Chosen (condition column : Str) : Prop :=
  condition = "p" ∧ column = "z" ∨ condition = "q" ∧ column = "a"

theorem Cut.step (hchosen : Chosen condition column) (k : StageKind)
    (h : Cut x y rows) :
    Cut x y ((cutStage condition column k).apply
      (onlyAsks (asksFor x)) rows) := by
  cases k with
  | filter =>
    rcases hchosen with ⟨rfl, rfl⟩ | ⟨rfl, rfl⟩
    · have hall : rows.filter (onlyAsks (asksFor x) "p") = rows :=
        filter_eq_self.mpr fun _ _ => rfl
      exact Eq.mpr (congrArg (Cut x y) hall) h
    have hnone : rows.filter (onlyAsks (asksFor x) "q") = [] := by
      refine filter_eq_nil_iff.mpr fun r hr hq => h.other r hr ?_
      simpa [onlyAsks, asksFor] using hq
    exact Eq.mpr (congrArg (Cut x y) hnone) (Cut.nil x y)
  | sort =>
    have hsame : sortBy (sortKey [⟨column, false⟩]) rows = rows := by
      refine sortBy_of_equal fun a ha b hb f hf => ?_
      cases mem_singleton.mp hf
      rcases hchosen with ⟨rfl, rfl⟩ | ⟨rfl, rfl⟩
      · exact (h.absent a ha).trans (h.absent b hb).symm
      · exact h.equal a ha b hb
    exact Eq.mpr (congrArg (Cut x y) hsame) h
  | head => exact h.take
  | keep => exact Cut.project h.first
  | drop =>
    have hsame : rows.map (NamedRow.without []) = rows := by
      refine (map_congr_left fun r _ => ?_).trans (map_id rows)
      simp [NamedRow.without]
    exact Eq.mpr (congrArg (Cut x y) hsame) h

theorem cut_of_late (hlate : k.isLate) (hxy : x < y) (condition column : Str) :
    Cut x y ((cutStage condition column k).apply (onlyAsks (asksFor x))
      [evenRow y, evenRow x]) := by
  cases k with
  | head =>
    constructor <;> simp [cutStage, apply, evenRow, NamedRow.cell, hxy.ne',
      lookup_cons]
  | keep =>
    refine Cut.project ?_
    rintro r ⟨⟩
    rfl
  | _ => cases hlate

omit [LinearOrder V] in
theorem mem_early (h : s ∈ select.early) :
    s.kind = .filter ∨ s.kind = .sort := by
  rcases mem_append.mp h with h | h <;>
    obtain ⟨c, -, rfl⟩ := Option.map_eq_some_iff.mp (Option.mem_toList.mp h)
  · exact Or.inl rfl
  · exact Or.inr rfl

theorem mem_late (h : s ∈ select.late) : s.kind = .head ∨ s.kind = .keep := by
  rcases mem_append.mp h with h | h <;>
    obtain ⟨c, -, rfl⟩ := Option.map_eq_some_iff.mp (Option.mem_toList.mp h)
  · exact Or.inl rfl
  · exact Or.inr rfl

theorem exists_early {stages : List Stage} (hs : s ∈ stages)
    (hkind : s.kind = .filter ∨ s.kind = .sort) :
    ∃ s' ∈ (selectOf source stages).early, s'.kind = s.kind := by
  cases s with
  | filter c =>
    have hsome : (stages.findSome? Stage.condition?).isSome :=
      findSome?_isSome_iff.mpr ⟨_, hs, rfl⟩
    obtain ⟨c', hc'⟩ := Option.isSome_iff_exists.mp hsome
    exact ⟨.filter c', by simp [early, selectOf, hc'], rfl⟩
  | sort fields =>
    have hsome : (stages.findSome? Stage.sortFields?).isSome :=
      findSome?_isSome_iff.mpr ⟨_, hs, rfl⟩
    obtain ⟨fields', hfields⟩ := Option.isSome_iff_exists.mp hsome
    exact ⟨.sort fields', by simp [early, selectOf, hfields],
      rfl⟩
  | _ => simp [Stage.kind] at hkind

theorem filter_asksFor (hxy : x < y) :
    [evenRow y, evenRow x].filter (onlyAsks (asksFor x) "q") = [evenRow x] ∧
      [evenRow x, evenRow y].filter (onlyAsks (asksFor x) "q") = [evenRow x] ∧
      [evenRow x].filter (onlyAsks (asksFor x) "q") = [evenRow x] := by
  have hx : onlyAsks (asksFor x) "q" (evenRow x) = true := decide_eq_true rfl
  have hy : onlyAsks (asksFor x) "q" (evenRow y) = false :=
    decide_eq_false fun heq => hxy.ne' (Option.some.inj heq)
  simp only [filter_cons, filter_nil, hx, hy, if_true, Bool.false_eq_true,
    if_false, and_self]

def Found (x y : V) (rows : List (NamedRow V)) : Prop :=
  rows = [evenRow x] ∨ rows = [evenRow x, evenRow y]

theorem Found.step (hxy : x < y) (hkind : k = .filter ∨ k = .sort)
    (h : Found x y rows) :
    Found x y ((cutStage "q" "a" k).apply (onlyAsks (asksFor x)) rows) := by
  obtain ⟨-, htwo, hone⟩ := filter_asksFor hxy
  obtain ⟨hasc, -⟩ := sortKey_evenRow_lt hxy
  rcases hkind with rfl | rfl <;> rcases h with rfl | rfl
  · exact Or.inl hone
  · exact Or.inl htwo
  · exact Or.inl rfl
  · exact Or.inr (sortBy_of_sorted (by simpa using hasc.le))

theorem found_of_early (hxy : x < y) (hkind : k = .filter ∨ k = .sort) :
    Found x y ((cutStage "q" "a" k).apply (onlyAsks (asksFor x))
      [evenRow y, evenRow x]) := by
  obtain ⟨hfilter, -, -⟩ := filter_asksFor hxy
  obtain ⟨hasc, -⟩ := sortKey_evenRow_lt hxy
  rcases hkind with rfl | rfl
  · exact Or.inl hfilter
  · exact Or.inr (sortBy_pair_of_lt hasc)

theorem cutStage_idle (q : NamedRow V → Bool) (hkind : k = .filter ∨ k = .sort)
    (hlength : rows.length ≤ 2) (hrows : ∀ r ∈ rows, ∃ v, r = evenRow v) :
    (cutStage "p" "z" k).apply (onlyAsks q) rows = rows := by
  have hidle : cutStage "p" "z" k = idleStage k := by rcases hkind with rfl
    | rfl <;> rfl
  rw [hidle]
  exact idleStage_apply q k hlength hrows

def mixedStages (as bs : List StageKind) : List Stage :=
  as.map (cutStage "p" "z") ++ bs.map (cutStage "q" "a")

theorem mem_stages_mixed
    (h : s ∈ (selectOf source (mixedStages as bs)).stages) :
    s = cutStage "p" "z" s.kind ∧ s.kind ∈ as ∨
    s = cutStage "q" "a" s.kind := by
  rcases (mem_stages_selectOf h).1 with hs | ⟨hs, -⟩
  · obtain ⟨k, hk, rfl⟩ := mem_map.mp hs
    rw [cutStage_kind]
    exact Or.inl ⟨rfl, hk⟩
  · obtain ⟨k, -, rfl⟩ := mem_map.mp hs
    rw [cutStage_kind]
    exact Or.inr rfl

theorem early_finds (hxy : x < y) (hkind : k = .filter ∨ k = .sort)
    (hmem : k ∈ bs) (hnot : k ∉ as) :
    Found x y (pipeline (onlyAsks (asksFor x)) [evenRow y, evenRow x]
      (selectOf source (mixedStages as bs)).early) := by
  have hJ : ∀ s ∈ (selectOf source (mixedStages as bs)).early, ∀ rows,
      Found x y rows → Found x y (s.apply (onlyAsks (asksFor x)) rows) := by
    intro s hs rows hrows
    rcases mem_stages_mixed source (mem_append_left _ hs) with
      ⟨heq, -⟩ | heq
    · rw [heq, cutStage_idle _ (mem_early hs)] <;>
        rcases hrows with rfl | rfl <;> simp [Found]
    · rw [heq]
      exact hrows.step hxy (mem_early hs)
  -- the clause of this kind is that of a later stage
  have hlater : cutStage "q" "a" k ∈ mixedStages as bs :=
    mem_append_right _ (mem_map_of_mem hmem)
  obtain ⟨s, hs, hskind⟩ := exists_early source hlater (by rwa [cutStage_kind])
  rw [cutStage_kind] at hskind
  have heq : s = cutStage "q" "a" k := by
    rcases mem_stages_mixed source (mem_append_left _ hs) with
      ⟨-, hmem'⟩ | heq
    · exact absurd (hskind ▸ hmem') hnot
    · rw [heq, hskind]
  refine runSteps_turns (fun s hs => ?_) hJ hs (heq ▸ found_of_early hxy hkind)
  rcases mem_stages_mixed source (mem_append_left _ hs) with ⟨heq, -⟩ | heq
    <;> rw [heq]
  · exact .inl (cutStage_idle _ (mem_early hs) (by simp) (by simp))
  · exact .inr (found_of_early hxy (mem_early hs))

def FirstShows (v : V) (rows : List (NamedRow V)) : Prop :=
  rows.head?.map (NamedRow.cell · "b") = some (some v)

theorem FirstShows.step {v : V} (hkind : k = .head ∨ k = .keep)
    {holds : Str → NamedRow V → Bool} (h : FirstShows v rows) :
    FirstShows v ((cutStage condition column k).apply holds rows) := by
  rcases hkind with rfl | rfl
  · simpa [FirstShows, cutStage, apply, head?_take] using h
  · rw [FirstShows, cutStage, apply, head?_map, Option.map_map]
    exact h

theorem rows_show_first (hxy : x < y) (hkind : k = .filter ∨ k = .sort)
    (hmem : k ∈ bs) (hnot : k ∉ as) :
    FirstShows x ((selectOf source (mixedStages as bs)).rows
      (onlyAsks (asksFor x)) [evenRow y, evenRow x]) := by
  rw [rows_eq_pipeline, pipeline, stages, runSteps_append]
  refine runSteps_inv ?_ ?_
  · intro s hs rows hrows
    rcases mem_stages_mixed source (mem_append_right _ hs) with ⟨heq, -⟩ | heq
      <;> rw [heq] <;>
      exact hrows.step (mem_late hs)
  · rcases early_finds source hxy hkind hmem hnot with h | h <;>
      rw [pipeline] at h <;> rw [h] <;> rfl

theorem pipeline_cut (hxy : x < y) (hlate : k.isLate) (hk : k ∈ as) :
    Cut x y (pipeline (onlyAsks (asksFor x)) [evenRow y, evenRow x]
      (mixedStages as bs)) := by
  rw [pipeline, mixedStages, runSteps_append, runSteps_map, runSteps_map]
  refine runSteps_inv (fun k' _ rows hrows => hrows.step (.inr ⟨rfl, rfl⟩) k')
    (runSteps_turns (fun k' _ => ?_) (fun k' _ rows hrows =>
      hrows.step (.inl ⟨rfl, rfl⟩) k') hk (cut_of_late hlate hxy _ _))
  cases k' with
  | filter => exact .inl (cutStage_idle _ (.inl rfl) (by simp) (by simp))
  | sort => exact .inl (cutStage_idle _ (.inr rfl) (by simp) (by simp))
  | head | keep => exact .inr (cut_of_late rfl hxy _ _)
  | drop => exact .inl rfl

theorem differs_of_late (hxy : x < y) {k k' : StageKind} (hlate : k.isLate)
    (hk : k ∈ as) (hkind : k' = .filter ∨ k' = .sort) (hmem : k' ∈ bs)
    (hnot : k' ∉ as) : Differs (V := V) source (as ++ bs) := by
  refine ⟨mixedStages as bs, onlyAsks (asksFor x), [evenRow y, evenRow x],
    by simp [mixedStages, Function.comp_def, cutStage_kind], fun heq => ?_⟩
  have hcut : Cut x y (pipeline (onlyAsks (asksFor x))
      [evenRow y, evenRow x] (mixedStages as bs)) := pipeline_cut hxy hlate hk
  rw [← heq] at hcut
  obtain ⟨r, hr, hx⟩ := Option.map_eq_some_iff.mp
    (rows_show_first source hxy hkind hmem hnot)
  have hy := hcut.first r hr
  rw [hx] at hy
  exact hxy.ne (Option.some.inj hy)

end Divergence

section Main

variable {V : Type} [LinearOrder V] [Nontrivial V]

/--
Pipelines of these kinds are translated to statements with their meaning,
whatever the arguments of the stages, the table and the conditions are.
-/
def RunLeftToRight (V : Type) [LinearOrder V] (source : QualifiedTable)
    (kinds : List StageKind) : Prop :=
  ∀ stages : List Stage, stages.map kind = kinds →
    pplToSql ⟨[source], stages.map toCommand⟩ =
      .ok (selectOf source stages).toText ∧
      ∀ (holds : Str → NamedRow V → Bool) (table : List (NamedRow V)),
        (selectOf source stages).rows holds table = pipeline holds table stages

/-- Which pipelines run left to right. -/
theorem ppl_left_to_right_iff (source : QualifiedTable)
    (kinds : List StageKind) :
    RunLeftToRight V source kinds ↔ InClauseOrder kinds := by
  constructor
  · intro h
    have hno : ¬ Differs (V := V) source kinds := by
      rintro ⟨stages, holds, table, hkinds, hne⟩
      exact hne ((h stages hkinds).2 holds table)
    obtain ⟨v, w, hvw⟩ := exists_pair_ne V
    obtain ⟨x, y, hxy⟩ : ∃ x y : V, x < y :=
      (lt_or_gt_of_ne hvw).elim (fun h => ⟨v, w, h⟩) fun h => ⟨w, v, h⟩
    have hdrop : StageKind.drop ∉ kinds := by
      intro hmem
      have hdiffers : Differs (V := V) source ([] ++ kinds) :=
        differs_of_repeated source hxy (Or.inr rfl) hmem
      exact hno hdiffers
    refine ⟨pairwise_iff_forall_sublist.mpr fun {k k'} hsub => ?_, hdrop⟩
    obtain ⟨as, bs, rfl, hk, hk'⟩ := cons_sublist_iff.mp hsub
    rw [singleton_sublist] at hk'
    refine ⟨?_, fun hlate => ?_⟩
    · rintro rfl
      exact hno (differs_of_repeated source hxy (Or.inl hk) hk')
    · by_contra hearly
      have hkind : k' = .filter ∨ k' = .sort := by
        cases k' <;> simp_all [StageKind.isLate]
      by_cases hmem : k' ∈ as
      · exact hno (differs_of_repeated source hxy (Or.inl hmem) hk')
      · exact hno (differs_of_late source hxy hlate hk hkind hk' hmem)
  · intro h stages hkinds
    exact ⟨pplToSql_stages source stages, fun holds table =>
      selectOf_rows_of_inClauseOrder holds source (hkinds ▸ h) table⟩

end Main

section Example

attribute [local instance] asciiUnicode

def logs : QualifiedTable := ⟨some "a", "logs"⟩

theorem ppl_left_to_right_all_stages :
    RunLeftToRight Str logs [.sort, .filter, .keep, .head] := by
  have : Nontrivial Str := ⟨[], ['a'], by decide⟩
  exact (ppl_left_to_right_iff logs _).mpr (by decide)

def errorsText : Str := "source = a.logs | head 1 | where level = 'error'"

def errorsStages : List Stage := [.head 1, .filter "level = 'error'"]

def isError (_ : Str) (row : NamedRow Str) : Bool :=
  row.cell "level" = some "error".toList

/-- The first row is asked for and then tested; the statement tests first. -/
theorem head_before_where :
    parsePpl errorsText = .ok ⟨[logs], errorsStages.map toCommand⟩ ∧
      pplToSql ⟨[logs], errorsStages.map toCommand⟩ =
        .ok "SELECT * FROM a.logs WHERE level = 'error' LIMIT 1".toList ∧
      (selectOf logs errorsStages).toText =
        "SELECT * FROM a.logs WHERE level = 'error' LIMIT 1".toList ∧
      (selectOf logs errorsStages).rows isError
        [[("level", some "info".toList)], [("level", some "error".toList)]] =
          [[("level".toList, some "error".toList)]] ∧
      pipeline isError [[("level", some "info".toList)],
        [("level", some "error".toList)]] errorsStages = [] := by
  refine ⟨by decide +kernel, by decide +kernel, by decide +kernel, rfl, rfl⟩

end Example

end Fuse.Engine.Ppl
