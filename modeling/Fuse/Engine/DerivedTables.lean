import Fuse.Engine.NamedTables
import Fuse.Engine.Pushdown

/-!
# Derived tables

A `SELECT` over a derived table over a derived table, and so on down to one
table.  The table is looked up through all levels, the filter through two.
-/

namespace Fuse.Engine

open Foundation Fuse.Core List

section Exact

variable {C : Type} [Unicode] [FloatOps] [SqlParser]
  {M : SqlModel C} {leaves : Leaves C} {row : Str → C}

def fullyTranslatable (e : SqlExpr) : Bool :=
  translatable e && keeps true e && keeps false e

theorem translateExpr_exact {e : SqlExpr} {f : FilterExpr}
    (h : translateExpr e = some f)
    (hpos : keeps true e = true) (hneg : keeps false e = true)
    (hsent : ∀ x ∈ operands e, SentAsMeant M leaves row x) :
    whereTruth M leaves row e = M.filterTruth row f :=
  Truth.Within.eq_of_both (translateExpr_within h hpos hsent)
    (translateExpr_within h hneg hsent)

end Exact

/-! ## Nested derived tables -/

def passesColumn : SelectItem → Bool
  | .unnamedExpr (.identifier _) => true
  | .unnamedExpr (.compoundIdentifier _) => true
  | .wildcard => true
  | .qualifiedWildcard _ => true
  | _ => false

/-- A `SELECT` that passes columns on and filters by a condition that has a
filter. -/
structure Level [FloatOps] [SqlParser] where
  projection : List SelectItem
  selection : Option SqlExpr
  orderBy : Option OrderByKind
  passes : projection.all passesColumn = true
  translated : selection.all fullyTranslatable = true

section Nested

variable [FloatOps] [SqlParser]

def Level.over (level : Level) (tables : List TableWithJoins) : Select :=
  .mk level.projection tables level.selection (.expressions []) none

def nestFrom (table : ObjectName) : List Level → List TableWithJoins
  | [] => [.mk (.table table) []]
  | level :: inner =>
    [.mk (.derived (.mk (.select (level.over (nestFrom table inner)))
      level.orderBy none)) []]

def nestedQuery (table : ObjectName) (outer : Level) (inner : List Level) :
    Query :=
  .mk (.select (outer.over (nestFrom table inner))) outer.orderBy none

end Nested

section Filters

variable {C : Type} [Unicode] [FloatOps] [SqlParser] (M : SqlModel C)
  (leaves : Leaves C)

/-- The columns and literals of the condition are sent as what they mean. -/
def Level.Sent (row : Str → C) (level : Level) : Prop :=
  ∀ e ∈ level.selection, ∀ x ∈ operands e, SentAsMeant M leaves row x

def Level.True (row : Str → C) (level : Level) : Prop :=
  ∀ e ∈ level.selection, whereTruth M leaves row e = .tt

def FilterTrue (row : Str → C) (filter : Option FilterExpr) : Prop :=
  ∀ f ∈ filter, M.filterTruth row f = .tt

/-- The filter of the statement is true on a row exactly if the conditions of
all levels are. -/
def KeepsFilters (sql : Str) (levels : List Level) : Prop :=
  ∃ sq, sqlToSubquery sql = .ok sq ∧
    ∀ row, (∀ level ∈ levels, level.Sent M leaves row) →
      (FilterTrue M row sq.filter ↔ ∀ level ∈ levels, level.True M leaves row)

variable {M leaves} {table : ObjectName} {outer : Level} {inner : List Level}
  {row : Str → C}

theorem filterTrue_selection {level : Level} (hsent : level.Sent M leaves row) :
    FilterTrue M row (level.selection.bind translateExpr) ↔
    level.True M leaves row := by
  have htranslated := level.translated
  unfold Level.True
  cases hsel : level.selection with
  | none => exact iff_of_true nofun nofun
  | some e =>
    rw [hsel] at htranslated
    obtain ⟨⟨hsome, hpos⟩, hneg⟩ : (translatable e = true ∧
        keeps true e = true) ∧ keeps false e = true := by
      simpa [fullyTranslatable] using htranslated
    rw [← translateExpr_isSome] at hsome
    obtain ⟨f, hf⟩ := Option.isSome_iff_exists.mp hsome
    have hexact : whereTruth M leaves row e = M.filterTruth row f :=
      translateExpr_exact hf hpos hneg (hsent e hsel)
    simp [FilterTrue, hf, hexact]

omit [FloatOps] [SqlParser] in
theorem filterTrue_merge {a b : Option FilterExpr} :
    FilterTrue M row (mergeFilters a b) ↔ FilterTrue M row a ∧
    FilterTrue M row b := by
  cases a <;> cases b <;> simp [mergeFilters, FilterTrue, CellModel.filterTruth]

omit [Unicode] in
theorem extractTableName_nestFrom :
    extractTableName (nestFrom table inner) =
      .ok (objectNameToString table) := by
  induction inner with
  | nil => rfl
  | cons level inner ih => exact ih

private theorem filter_queryToSubquery {q : Query} {s : Select} {name : Str}
    (hselect : plannedSelect q.body = .ok s)
    (htable : extractTableName s.tables = .ok name) :
    ∃ sq, queryToSubquery q = .ok sq ∧
    sq.filter = mergeFilters (s.selection.bind translateExpr)
        (extractInnerFilter s.tables) := by
  rw [queryToSubquery, hselect]
  change ∃ sq, (extractTableName s.tables >>= _) = _ ∧ _
  rw [htable]
  refine ⟨_, rfl, ?_⟩
  rfl

private theorem nestedQuery_plan (table : ObjectName) (outer : Level)
    (inner : List Level) :
    ∃ sq, queryToSubquery (nestedQuery table outer inner) = .ok sq ∧
      sq.filter = mergeFilters (outer.selection.bind translateExpr)
        (inner.head?.bind fun level => level.selection.bind translateExpr) := by
  have htable : extractTableName (outer.over (nestFrom table inner)).tables =
      .ok (objectNameToString table) := extractTableName_nestFrom
  have hinner : extractInnerFilter (nestFrom table inner) =
      inner.head?.bind fun level => level.selection.bind translateExpr := by
    cases inner <;> rfl
  obtain ⟨sq, hplan, hfilter⟩ := filter_queryToSubquery
    (q := nestedQuery table outer inner) rfl htable
  exact ⟨sq, hplan, hfilter.trans (congrArg (mergeFilters _) hinner)⟩

/-- The filters of the two outer levels are kept, so all are exactly if those
two imply the others. -/
theorem derived_filters_iff (sql : Str) (table : ObjectName) (outer : Level)
    (inner : List Level) (hparse : SqlParser.parseSql sql =
      .ok [.query (nestedQuery table outer inner)]) :
    KeepsFilters M leaves sql (outer :: inner) ↔
      ∀ row, (∀ level ∈ outer :: inner, level.Sent M leaves row) →
        (∀ level ∈ (outer :: inner).take 2, level.True M leaves row) →
          ∀ level ∈ inner.drop 1, level.True M leaves row := by
  obtain ⟨sq, hplan, hfilter⟩ := nestedQuery_plan table outer inner
  rw [← sqlToSubquery_query hparse] at hplan
  have hkept : ∀ row, (∀ level ∈ outer :: inner, level.Sent M leaves row) →
      (FilterTrue M row sq.filter ↔
        ∀ level ∈ (outer :: inner).take 2, level.True M leaves row) := by
    intro row hsent
    rw [hfilter, filterTrue_merge,
      filterTrue_selection (hsent outer (mem_cons_self ..))]
    cases inner with
    | nil => simp [FilterTrue]
    | cons level rest =>
      have hlevel : level.Sent M leaves row := hsent level (by simp)
      rw [head?_cons, Option.bind_some, filterTrue_selection hlevel]
      simp
  constructor
  · rintro ⟨sq', hsq', hall⟩ row hsent htwo level hlevel
    obtain rfl := Except.ok.inj (hplan.symm.trans hsq')
    exact (hall row hsent).mp ((hkept row hsent).mpr htwo) level
      (mem_cons_of_mem _ (mem_of_mem_drop hlevel))
  · intro hdeep
    refine ⟨sq, hplan, fun row hsent => ?_⟩
    rw [hkept row hsent]
    constructor
    · intro htwo level hlevel
      rw [← take_append_drop 2 (outer :: inner), mem_append] at hlevel
      rcases hlevel with h | h
      · exact htwo level h
      · exact hdeep row hsent htwo level h
    · intro hall level hlevel
      exact hall level (mem_of_mem_take hlevel)

end Filters

section Sample

attribute [local instance] asciiUnicode integersOnly

def columnIs (column : Str) (v : Value) : SqlExpr :=
  .binaryOp (.identifier { value := column }) .eq (.value v)

/-- `SELECT *` with no condition, `status = 200` or `level = 'error'`. -/
inductive SampleLevel where
  | all | status | error

namespace SampleLevel

def condition : SampleLevel → Option SqlExpr
  | all => none
  | status => some (columnIs "status" (.number "200" false))
  | error => some (columnIs "level" (.singleQuotedString "error"))

def level [SqlParser] (l : SampleLevel) : Level where
  projection := [.wildcard]
  selection := l.condition
  orderBy := none
  passes := rfl
  translated := by cases l <;> rfl

theorem sent [SqlParser] {leaves : Leaves ScalarValue} {row : Str → ScalarValue}
    (l : SampleLevel) : l.level.Sent scalarModel leaves row := by
  cases l with
  | all => exact nofun
  | status =>
    rintro e ⟨⟩
    exact forall_mem_cons.mpr ⟨sentAsMeant_identifier _,
      forall_mem_cons.mpr ⟨sentAsMeant_integer (i := 200) _ rfl, nofun⟩⟩
  | error =>
    rintro e ⟨⟩
    exact forall_mem_cons.mpr ⟨sentAsMeant_identifier _,
      forall_mem_cons.mpr ⟨⟨nofun, fun s hs => by cases hs; rfl⟩, nofun⟩⟩

def nested (outer : SampleLevel) (inner : List SampleLevel) : Query :=
  letI := tableParser []
  nestedQuery [.identifier { value := "logs" }] outer.level (inner.map level)

end SampleLevel

open SampleLevel

def threeLevels : Str :=
  "SELECT * FROM (SELECT * FROM (SELECT * FROM logs WHERE status = 200))"

theorem third_filter_is_lost :
    letI := tableParser [(threeLevels, nested all [all, status])]
    (∃ sq, sqlToSubquery threeLevels = .ok sq ∧ sq.filter = none) ∧
      ¬ KeepsFilters scalarModel (constantLeaves .null) threeLevels
        [all.level, all.level, status.level] := by
  let := tableParser [(threeLevels, nested all [all, status])]
  have hplan : sqlToSubquery threeLevels =
      queryToSubquery (nested all [all, status]) := sqlToSubquery_query rfl
  have hlost : ∃ sq, sqlToSubquery threeLevels = .ok sq ∧ sq.filter = none := by
    rw [hplan]
    exact ⟨_, rfl, rfl⟩
  refine ⟨hlost, ?_⟩
  rintro ⟨sq, hsq, hkeeps⟩
  obtain ⟨sq', hsq', hnone⟩ := hlost
  obtain rfl := Except.ok.inj (hsq.symm.trans hsq')
  -- a row with another status passes the filter that is sent
  have htrue := (hkeeps (statusRow (.int64 500)) ?_).mp ?_ status.level
    (by simp) _ rfl
  · revert htrue
    decide
  · simp only [forall_mem_cons]
    exact ⟨sent _, sent _, sent _, nofun⟩
  · rw [hnone]
    exact nofun

def filteredLevels : Str :=
  "SELECT * FROM (SELECT * FROM (SELECT * FROM logs WHERE status = 200) " ++
    "WHERE level = 'error') WHERE status = 200"

theorem derived_filters_repeated :
    letI := tableParser [(filteredLevels, nested status [error, status])]
    KeepsFilters scalarModel (constantLeaves .null) filteredLevels
      [status.level, error.level, status.level] := by
  let := tableParser [(filteredLevels, nested status [error, status])]
  refine (derived_filters_iff filteredLevels [.identifier { value := "logs" }]
    status.level [error.level, status.level] ?_).mpr ?_
  · rfl
  · intro row _ htwo level hlevel
    obtain rfl := mem_singleton.mp hlevel
    exact htwo _ (by simp)

end Sample

end Fuse.Engine
