import Fuse.Core.Arrow
import Fuse.Core.Filter
import Fuse.Foundation.Grouping
import Fuse.Foundation.Windows

/-!
# The meaning of a sub-query

What a connector returns that evaluates a sub-query without aggregates and
sort keys exactly: of the rows of the table that pass the filter the selected
columns, and of those the window.
-/

namespace Fuse.Core

open Foundation List

abbrev TableRow (V : Type) := Str → Option V

abbrev Tables (V : Type) := Str → Str → List (TableRow V)

/-- What is fixed about the tables of all sources: how cells compare, the
columns of `*` and the type of a column. -/
structure TableModel (V : Type) where
  cells : CellModel (Option V)
  columns : List Str
  typeOf : Str → DataType

structure SubQuery.Plain (sq : SubQuery) : Prop where
  aggregations : sq.aggregations = []
  groupBy : sq.groupBy = []
  having : sq.having = none
  sort : sq.sort = []

namespace TableModel

variable {V : Type} [Unicode] (T : TableModel V)

def keeps (sq : SubQuery) (row : TableRow V) : Bool :=
  sq.filter.all fun f => T.cells.filterTruth row f = .tt

def selected (sq : SubQuery) : List Str :=
  if sq.projections.isEmpty then T.columns else sq.projections

def pick (sq : SubQuery) (row : TableRow V) : Option (Row V) :=
  if T.keeps sq row then some ((T.selected sq).map row) else none

def fields (sq : SubQuery) : Schema := (T.selected sq).map fun name =>
    { name, dataType := T.typeOf name, nullable := true }

def rows (sq : SubQuery) (table : List (TableRow V)) : List (Row V) :=
  let picked := (table.filterMap (T.pick sq)).drop (sq.offset.getD 0)
  match sq.limit with
  | some n => picked.take n
  | none => picked

theorem rowFits_rows {sq : SubQuery} {table : List (TableRow V)} {row : Row V}
    (h : row ∈ T.rows sq table) : rowFits (T.fields sq) row = true := by
  have hpicked : row ∈ table.filterMap (T.pick sq) := by
    unfold rows at h
    split at h
    · exact mem_of_mem_drop (mem_of_mem_take h)
    · exact mem_of_mem_drop h
  obtain ⟨source, -, hsource⟩ := mem_filterMap.mp hpicked
  unfold pick at hsource
  split at hsource
  · cases hsource
    simp [rowFits, fields, zip_map']
  · cases hsource

def batch (sq : SubQuery) (table : List (TableRow V)) : RecordBatch V where
  schema := T.fields sq
  rows := T.rows sq table
  fits _ h := T.rowFits_rows h

end TableModel

/-!
## Every clause

The same with aggregates and sort keys.  How cells compare, what an aggregate is
worth and how rows are put in order belongs to the engine.
-/

open Grouping Windows

structure SelectModel (C : Type) where
  cells : CellModel C
  columns : List Str
  aggregate : AggregationExpr → List (Str → C) → C
  order : List SortExpr → List (Str → C) → List (Str → C)

namespace SelectModel

variable {C : Type} [DecidableEq C] [Unicode] (E : SelectModel C)

def passes (filter : Option FilterExpr) (row : Str → C) : Bool :=
  filter.all fun f => E.cells.filterTruth row f = .tt

def isGrouped (q : SubQuery) : Bool :=
  !q.groupBy.isEmpty || !q.aggregations.isEmpty

def groups (names : List Str) (rows : List (Str → C)) : List (List (Str → C)) :=
  if names.isEmpty then [rows]
  else
    let key (row : Str → C) := names.map row
    (rows.map key).eraseDups.map fun k => groupOf key k rows

def groupRow (q : SubQuery) (members : List (Str → C)) : Str → C := fun name =>
  match q.aggregations.find? (·.aliasName == name), members with
  | some a, _ => E.aggregate a members
  | none, row :: _ => row name
  | none, [] => E.cells.ofScalar .null

def selected (q : SubQuery) : List Str :=
  if !q.aggregations.isEmpty then
    q.groupBy ++ q.aggregations.map (·.aliasName)
  else if q.projections.isEmpty then E.columns
  else q.projections

def rows (q : SubQuery) (table : List (Str → C)) : List (List C) :=
  let kept := table.filter (E.passes q.filter)
  let found := if isGrouped q then (groups q.groupBy kept).map (E.groupRow q)
    else kept
  let sorted := E.order q.sort (found.filter (E.passes q.having))
  (limited q.limit (sorted.drop (q.offset.getD 0))).map fun row =>
    (E.selected q).map row

end SelectModel

end Fuse.Core
