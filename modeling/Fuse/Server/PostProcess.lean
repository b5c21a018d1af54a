import Fuse.Core.Security
import Fuse.Server.Execute

/-!
# From a federated result to a page

What the query endpoint does with the batches of the sources: the second
aggregation of a grouped query, `HAVING`, the global `ORDER BY`, `DISTINCT`,
the window of `OFFSET`, cursor and page size, the column policies and the JSON
rows (`fuse-server/src/api.rs`).
-/

namespace Fuse.Server

open Foundation Fuse.Core Engine

structure PlanClauses where
  orderBy : List OrderKey
  limit : Option Nat
  isDistinct : Bool
  offset : Nat
  deriving DecidableEq, Repr

structure PageRequest where
  cursor : Option Str := none
  pageSize : Option Nat := none
  deriving DecidableEq, Repr

structure Page (V : Type) where
  batches : List (RecordBatch V)
  nextCursor : Option Str

section Clauses

variable [Unicode]

def parseClauses (query : Str) : Fallible PlanClauses := do
  return {
    orderBy := ← parseOrderBy query
    limit := parseLimit query
    isDistinct := isDistinctQuery query
    offset := (parseOffset query).getD 0 }

end Clauses

section Batches

variable {V : Type} [ArrowKernels V]

/-! ## Second aggregation -/

structure Group (V : Type) where
  key : List Str
  rows : List (Row V)

def cellText (cell : Option V) : Str := (cell.map ArrowKernels.display).getD []

def addToGroup (key : List Str) (row : Row V) : List (Group V) → List (Group V)
  | [] => [⟨key, [row]⟩]
  | g :: gs =>
    if g.key = key then { g with rows := g.rows ++ [row] } :: gs
    else g :: addToGroup key row gs

def groupRows (columns : List Nat) (rows : List (Row V)) : List (Group V) :=
  rows.foldl (fun groups row =>
    addToGroup (columns.map fun i => cellText row[i]?.join) row groups) []

def Group.cells (g : Group V) (column : Nat) : List V :=
  g.rows.filterMap fun row => row[column]?.join

def sumCells [FloatOps] (cells : List V) : V :=
  let numbers := cells.filterMap fun v =>
    FloatOps.parse (ArrowKernels.display v)
  ArrowKernels.ofF64 cells (numbers.foldl FloatOps.add F64.zero)

def groupRow [FloatOps] (groupColumns aggColumns : List Nat) (g : Group V) :
    Row V :=
  (groupColumns.zip g.key).map (fun (i, text) =>
      some (ArrowKernels.ofText (g.cells i) text)) ++
    aggColumns.map fun i => some (sumCells (g.cells i))

def renamedField (schema : Schema) (dataType : DataType) (column : Nat) :
    Field :=
  { name := (schema[column]?.map (·.name)).getD [], dataType,
    nullable := true }

def aggregateColumns (schema : Schema) (groupColumns : List Nat) : List Nat :=
  (List.range schema.length).filter fun i =>
    i ∉ groupColumns && schema[i]?.all (·.name ≠ datasourceField.name)

def orderGroups (env : Env V) (groups : List (Group V)) : List (Group V) :=
  (env.keyOrder (groups.map (·.key))).filterMap fun key =>
    groups.find? (·.key = key)

def reaggregateBatches [FloatOps] (env : Env V) (batches : List (RecordBatch V))
    (groupCols : List Str) : Fallible (List (RecordBatch V)) :=
  match batches with
  | [] => .ok []
  | first :: _ =>
    let groupColumns := groupCols.filterMap first.schema.indexOf
    let aggColumns := aggregateColumns first.schema groupColumns
    if groupColumns = [] then .ok batches
    else if batches.any fun b => !b.rows.isEmpty &&
        (groupColumns ++ aggColumns).any (b.schema.length ≤ ·) then
      Fallible.panic .indexOutOfBounds
    else
      let groups := orderGroups env
        (groupRows groupColumns (batches.flatMap (·.rows)))
      let schema : Schema :=
        groupColumns.map (renamedField first.schema .utf8) ++
          aggColumns.map (renamedField first.schema .float64)
      Fallible.orElse (List.singleton <$> RecordBatch.tryNew schema schema.types
          (groups.map (groupRow groupColumns aggColumns))) batches

/-! ## `HAVING`, `ORDER BY`, `DISTINCT` -/

def HavingOp.holds [FloatOps] (op : HavingOp) (x y : F64) : Bool :=
  let distance := (FloatOps.sub x y).abs
  match op with
  | .gt => FloatOps.lt y x
  | .ge => FloatOps.le y x
  | .lt => FloatOps.lt x y
  | .le => FloatOps.le x y
  | .eq => FloatOps.lt distance F64.epsilon
  | .ne => FloatOps.le F64.epsilon distance

def havingKeeps [FloatOps] (having : HavingCondition) (cell : Option V) :
    Bool :=
  match cell.bind fun v => FloatOps.parse (ArrowKernels.display v) with
  | some x => having.op.holds x having.value
  | none => false

def applyHavingFilter [FloatOps] [Unicode] (having : HavingCondition)
    (batches : List (RecordBatch V)) : List (RecordBatch V) :=
  batches.filterMap fun batch =>
    (batch.schema.findIdx? fun f =>
      toLowercase f.name = toLowercase having.column).map fun i =>
        batch.filterRows fun row => havingKeeps having row[i]?.join

def resolveOrder (schema : Schema) (orderBy : List OrderKey) :
    List (Nat × Bool) :=
  orderBy.filterMap fun key =>
    (schema.indexOf key.column).map fun i => (i, key.descending)

def applyOrderBy (orderBy : List OrderKey)
    (batches : List (RecordBatch V)) : Fallible (List (RecordBatch V)) :=
  match batches with
  | [] => .ok []
  | first :: _ =>
    match resolveOrder first.schema orderBy with
    | [] => .ok batches
    | keys =>
      Fallible.orElse (sortBatches batches (keys.map (·.1))
        (keys.map (·.2)) none) []

def applyDistinct (isDistinct : Bool) (batches : List (RecordBatch V)) :
    Fallible (List (RecordBatch V)) :=
  match batches with
  | [] => .ok []
  | first :: _ =>
    if isDistinct then
      Fallible.orElse (dedupBatches batches
        (first.schema.names.filter (· ≠ datasourceField.name))) []
    else .ok batches

/-! ## Window -/

def rebuild (schema : Schema) (rows : List (List DataType × Row V)) :
    List (RecordBatch V) :=
  let width := schema.length
  if rows.all fun (types, _) => types.take width = schema.types then
    match RecordBatch.tryNew schema schema.types
        (rows.map fun (_, row) => row.take width) with
    | .ok batch => [batch]
    | .error _ => []
  else []

def takeWindow (skip : Nat) (count : Option Nat)
    (batches : List (RecordBatch V)) : Fallible (List (RecordBatch V)) :=
  if skip = 0 && count.isNone then .ok batches
  else
    let all := (batches.flatMap fun b =>
      b.rows.map fun row => (b.schema.types, row)).drop skip
    let taken := all.take (count.getD all.length)
    match batches with
    | [] => .ok []
    | first :: _ =>
      if taken.isEmpty then .ok []
      else if taken.any fun (types, _) =>
          types.length < first.schema.length then
        Fallible.panic .indexOutOfBounds
      else .ok (rebuild first.schema taken)

def batchesToJson (batches : List (RecordBatch V)) :
    List Str × List (List (Option Str)) :=
  ((batches.head?.map fun b => b.schema.names).getD [], batches.flatMap fun b =>
      b.rows.map fun row => row.map (Option.map ArrowKernels.display))

section Queries

variable [Unicode] [FloatOps]

def mergedResult (env : Env V) (query : Str)
    (fed : FederatedResult V) : Fallible (List (RecordBatch V)) := do
  let groupBy ← parseGroupBy query
  let grouped ← if !groupBy.isEmpty && 1 < fed.datasources.length then
      reaggregateBatches env fed.batches groupBy
    else .ok fed.batches
  return match ← parseHaving query with
    | some having => applyHavingFilter having grouped
    | none => grouped

theorem mergedResult_plain (env : Env V) {query : Str}
    (hgroup : parseGroupBy query = .ok [])
    (hhaving : parseHaving query = .ok none)
    (fed : FederatedResult V) : mergedResult env query fed =
      .ok fed.batches := by
  simp only [mergedResult, hgroup, hhaving]
  rfl

def shapeResult (env : Env V) (query : Str) (clauses : PlanClauses)
    (fed : FederatedResult V) : Fallible (List (RecordBatch V)) := do
  let merged ← mergedResult env query fed
  let sorted ← applyOrderBy clauses.orderBy merged
  applyDistinct clauses.isDistinct sorted

def effectiveOffset (clauses : PlanClauses) (page : PageRequest) : Nat :=
  (clauses.offset + ((page.cursor.bind decodeCursor).getD 0)) % 2 ^ 64

def effectivePageSize (clauses : PlanClauses) (page : PageRequest) :
    Option Nat :=
  page.pageSize.or clauses.limit

def applyColumnRbac (rbac : Option PolicyEngine) (user : UserContext)
    (fed : FederatedResult V)
    (refs : List TableRef) (batches : List (RecordBatch V)) :
    Fallible (List (RecordBatch V)) :=
  match rbac with
  | none => .ok batches
  | some engine =>
    Fallible.orElse (filterBatches engine batches (fed.datasources.headD [])
        ((refs.head?.map (·.table)).getD []) user) []

def finishPage (rbac : Option PolicyEngine) (user : UserContext)
    (clauses : PlanClauses)
    (page : PageRequest) (fed : FederatedResult V) (refs : List TableRef)
    (shaped : List (RecordBatch V)) : Fallible (Page V) := do
  let offset := effectiveOffset clauses page
  let size := effectivePageSize clauses page
  let window ← takeWindow offset size shaped
  let batches ← applyColumnRbac rbac user fed refs window
  let next := offset + totalRows batches
  return {
    batches
    nextCursor := if size.isSome && next < totalRows shaped then
        some (encodeCursor next)
      else none }

end Queries

end Batches

end Fuse.Server
