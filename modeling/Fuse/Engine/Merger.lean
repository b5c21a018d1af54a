import Fuse.Core.Arrow

/-!
# Merging results

Union, alignment, global sort and de-duplication of record batches, as
`fuse-engine/src/merger.rs` computes them.
-/

namespace Fuse.Engine

open Foundation Fuse.Core List

/-! ## Union schema -/

def widerType (a b : DataType) : DataType :=
  if a = b then a
  else match a, b with
    | .int8, .int16 | .int8, .int32 | .int8, .int64 => b
    | .int16, .int32 | .int16, .int64 => b
    | .int32, .int64 => b
    | .int16, .int8 | .int32, .int8 | .int64, .int8 => a
    | .int32, .int16 | .int64, .int16 => a
    | .int64, .int32 => a
    | .float32, .float64 => .float64
    | .float64, .float32 => .float64
    | .int8, .float64 | .int16, .float64 | .int32, .float64
    | .int64, .float64 => .float64
    | .float64, .int8 | .float64, .int16 | .float64, .int32
    | .float64, .int64 => .float64
    | .utf8, .largeUtf8 | .largeUtf8, .utf8 => .largeUtf8
    | _, _ => a

def addField (fieldMap : List (Str × DataType)) (field : Field) :
    List (Str × DataType) :=
  if fieldMap.any (·.1 = field.name) then
    fieldMap.map fun (name, dt) =>
      if name = field.name then (name, widerType dt field.dataType)
      else (name, dt)
  else fieldMap ++ [(field.name, field.dataType)]

def unionSchema (schemas : List Schema) : Schema :=
  (schemas.flatten.foldl addField []).map fun (name, dataType) =>
    { name, dataType, nullable := decide (schemas.length > 1) }

section Batches

variable {V : Type} [ArrowKernels V]

def alignCell (schema : Schema) (row : Row V) (field : Field) : Option V :=
  match schema.indexOf field.name with
  | none => none
  | some i =>
    match row[i]?.join, schema[i]? with
    | some v, some source =>
      if source.dataType = field.dataType then some v
      else ArrowKernels.castValue source.dataType field.dataType v
    | _, _ => none

def castable (V : Type) [ArrowKernels V] (schema target : Schema) : Bool :=
  target.all fun field =>
    match schema.indexOf field.name with
    | none => true
    | some i =>
      match schema[i]? with
      | some source => source.dataType = field.dataType ||
          ArrowKernels.canCast V source.dataType field.dataType
      | none => true

def alignBatch (batch : RecordBatch V) (target : Schema) :
    Fallible (RecordBatch V) :=
  if castable V batch.schema target then
    RecordBatch.tryNew target target.types
      (batch.rows.map fun row => target.map (alignCell batch.schema row))
  else RecordBatch.arrowError V .unsupportedCast

def allSame (schemas : List Schema) : Bool :=
  (schemas.zip schemas.tail).all fun (a, b) => a = b

variable {schemas : List Schema}

theorem allSame_eq {schema : Schema} (h : allSame (schema :: schemas) = true) :
    ∀ s ∈ schemas, s = schema := by
  induction schemas generalizing schema with
  | nil => simp
  | cons next schemas ih =>
    simp only [allSame, tail_cons, zip_cons_cons, all_cons,
      Bool.and_eq_true, decide_eq_true_eq] at h
    obtain ⟨rfl, h⟩ := h
    intro s hs
    rcases mem_cons.mp hs with rfl | hs
    · rfl
    · exact ih h s hs

theorem allSame_of_forall_eq {schema : Schema} (h : ∀ s ∈ schemas, s = schema) :
    allSame schemas = true := by
  simp only [allSame, all_eq_true, decide_eq_true_eq]
  intro pair hpair
  obtain ⟨hfst, hsnd⟩ := of_mem_zip hpair
  rw [h pair.1 hfst, h pair.2 (mem_of_mem_tail hsnd)]

theorem allSame_iff : allSame schemas = true ↔ ∀ s ∈ schemas, ∀ t ∈ schemas,
    s = t := by
  cases schemas with
  | nil => simp [allSame]
  | cons first rest =>
    constructor
    · intro h s hs t ht
      have hfirst : ∀ s ∈ first :: rest, s = first :=
        forall_mem_cons.mpr ⟨rfl, allSame_eq h⟩
      rw [hfirst s hs, hfirst t ht]
    · exact fun h => allSame_of_forall_eq fun s hs =>
        h s hs first mem_cons_self

def unionBatches (batchSets : List (List (RecordBatch V))) :
    Fallible (List (RecordBatch V)) :=
  let all := batchSets.flatten
  let schemas := all.map (·.schema)
  if allSame schemas then .ok all
  else all.mapM (alignBatch · (unionSchema schemas))

/-! ## Sort, limit and de-duplication -/

def mergeBatches (batches : List (RecordBatch V)) (limit : Option Nat) :
    Fallible (List (RecordBatch V)) :=
  match batches with
  | [] => .ok []
  | first :: _ => do
      let merged ← RecordBatch.concatBatches first.schema batches
      match limit with
      | some n =>
        return [if n < merged.numRows then merged.slice 0 n else merged]
      | none => return [merged]

/-- Sort the rows of one batch by key columns, keeping the first `limit`. -/
def sortRows (batch : RecordBatch V) (columns : List Nat)
    (options : List SortOptions)
    (limit : Option Nat) : Fallible (RecordBatch V) :=
  let keys := batch.rows.map (RecordBatch.keyOf columns)
  match ArrowKernels.lexsort options keys with
  | none => RecordBatch.arrowError V .unsupportedSort
  | some indices =>
    .ok (batch.gather (match limit with
      | some n => indices.take n
      | none => indices))

def sortBatches (batches : List (RecordBatch V)) (sortColumns : List Nat)
    (descending : List Bool)
    (limit : Option Nat) : Fallible (List (RecordBatch V)) :=
  match batches with
  | [] => mergeBatches [] limit
  | first :: _ =>
    if sortColumns = [] then mergeBatches batches limit
    else do
      let merged ← RecordBatch.concatBatches first.schema batches
      -- `zip` stops at the shorter of columns and directions
      let keys := sortColumns.zip descending
      if keys.any fun (column, _) => first.schema.length ≤ column then
        Fallible.panic .indexOutOfBounds
      else
        let sorted ← sortRows merged (keys.map (·.1))
          (keys.map fun (_, desc) =>
            { descending := desc, nullsFirst := !desc }) limit
        return [sorted]

def dropRepeats (text : Row V → List Str) :
    Option (List Str) → List (Row V) → List (Row V)
  | _, [] => []
  | previous, row :: rows =>
    if previous = some (text row) then
      dropRepeats text (some (text row)) rows
    else row :: dropRepeats text (some (text row)) rows

omit [ArrowKernels V] in
theorem dropRepeats_subset (text : Row V → List Str)
    (previous : Option (List Str))
    (rows : List (Row V)) : dropRepeats text previous rows ⊆ rows := by
  induction rows generalizing previous with
  | nil => simp [dropRepeats]
  | cons row rows ih =>
    rw [dropRepeats]
    split
    · exact List.Subset.trans (ih _) (subset_cons_self _ _)
    · exact cons_subset_cons row (ih _)

def dedupText (schema : Schema) (columns : List Nat) (row : Row V) : List Str :=
  columns.map fun i =>
    ArrowKernels.debug ((schema[i]?.map (·.dataType)).getD (.other []))
      (row[i]?.join)

def resolveColumns (schema : Schema) (names : List Str) : Fallible (List Nat) :=
  names.mapM fun name =>
    match schema.indexOf name with
    | some i => .ok i
    | none =>
      Fallible.fail ("Error during planning: Dedup column '" ++ name ++
        "' not found")

def dedupBatches (batches : List (RecordBatch V)) (dedupColumns : List Str) :
    Fallible (List (RecordBatch V)) :=
  match batches with
  | [] => .ok []
  | first :: _ =>
    if dedupColumns = [] then .ok batches
    else do
      let merged ← RecordBatch.concatBatches first.schema batches
      let columns ← resolveColumns first.schema dedupColumns
      let sorted ← sortRows merged columns
        (columns.map fun _ => { descending := false, nullsFirst := true })
        none
      let kept := dropRepeats (dedupText first.schema columns) none
        sorted.rows
      return [sorted.restrict kept (dropRepeats_subset _ _ _)]

end Batches

/-!
## Pushing a base query to its sources

What each per-source sub-query takes over from the query the user wrote
(`push_down_to_sources` of `fuse-engine/src/rewrite.rs`).
-/

def pushLimit (base existing : Option Nat) : Option Nat :=
  match base, existing with
  | some b, none => some b
  | some b, some e => some (min e b)
  | none, e => e

def pushDown (base sq : SubQuery) : SubQuery :=
  let pushAggs := sq.aggregations.isEmpty && !base.aggregations.isEmpty
  { sq with
    filter := sq.filter.or base.filter
    projections :=
      if sq.projections.isEmpty then base.projections else sq.projections
    sort := if sq.sort.isEmpty then base.sort else sq.sort
    limit := pushLimit base.limit sq.limit
    aggregations := if pushAggs then base.aggregations else sq.aggregations
    groupBy := if pushAggs then base.groupBy else sq.groupBy
    having := if pushAggs then sq.having.or base.having else sq.having }

def pushDownToSources (base : SubQuery) (perSource : List SubQuery) :
    List SubQuery :=
  perSource.map (pushDown base)

end Fuse.Engine
