import Fuse.Core.Connector

/-!
# Record batches

A record batch is a schema with rows that fit it: as many cells as fields, and
no NULL in a field that is not nullable.  The cell type is a parameter, so the
same pipeline runs on plain values and on values that carry their origin.
What Arrow computes on cells (display, cast, sort) is the class
`ArrowKernels`.
-/

namespace Fuse.Core

open Foundation List

inductive DataType where
  | boolean | int8 | int16 | int32 | int64 | float32 | float64
  | utf8 | largeUtf8
  | other (name : Str)
  deriving DecidableEq, Repr

structure Field where
  name : Str
  dataType : DataType
  nullable : Bool
  deriving DecidableEq, Repr

abbrev Schema := List Field

namespace Schema

def names (schema : Schema) : List Str := schema.map (·.name)

def types (schema : Schema) : List DataType := schema.map (·.dataType)

def indexOf (schema : Schema) (name : Str) : Option Nat :=
  schema.findIdx? (·.name = name)

end Schema

abbrev Row (V : Type) := List (Option V)

def rowFits {V : Type} (schema : Schema) (row : Row V) : Bool :=
  row.length == schema.length &&
    (schema.zip row).all fun (field, cell) => field.nullable || cell.isSome

theorem rowFits_nullable {V : Type} {schema : Schema} {row : Row V}
    (hnullable : ∀ f ∈ schema, f.nullable = true)
    (hlength : row.length = schema.length) : rowFits schema row = true := by
  simp only [rowFits, hlength, beq_self_eq_true, Bool.true_and, all_eq_true]
  intro pair hpair
  rw [hnullable _ (of_mem_zip hpair).1]
  rfl

structure RecordBatch (V : Type) where
  schema : Schema
  rows : List (Row V)
  fits : ∀ row ∈ rows, rowFits schema row = true
  deriving DecidableEq, Repr

inductive ArrowError where
  | noColumns | columnCount | typeMismatch | nullInRequired
  | unsupportedCast | unsupportedSort
  deriving DecidableEq, Repr

structure SortOptions where
  descending : Bool
  nullsFirst : Bool
  deriving DecidableEq, Repr

/--
What the Arrow library computes on cells.  `none` is an error.  A cell is made
together with the cells it is computed from; plain values ignore them, values
that carry their origin do not.
-/
class ArrowKernels (V : Type) where
  ofText : List V → Str → V
  ofF64 : List V → F64 → V
  /-- `array_value_to_string` of a cell that is not NULL. -/
  display : V → Str
  /-- The `Debug` text of a one-cell slice of a column. -/
  debug : DataType → Option V → Str
  canCast : DataType → DataType → Bool
  castValue : DataType → DataType → V → Option V
  /-- `lexsort_to_indices` on the key columns of each row. -/
  lexsort : List SortOptions → List (Row V) → Option (List Nat)
  errorText : ArrowError → Str

theorem length_of_rowFits {V : Type} {schema : Schema} {row : Row V}
    (h : rowFits schema row = true) : row.length = schema.length := by
  simp only [rowFits, Bool.and_eq_true, beq_iff_eq] at h
  exact h.1

namespace RecordBatch

variable {V : Type}

def numRows (batch : RecordBatch V) : Nat := batch.rows.length

def restrict (batch : RecordBatch V) (rows : List (Row V))
    (h : rows ⊆ batch.rows) : RecordBatch V where
  schema := batch.schema
  rows
  fits row hrow := batch.fits row (h hrow)

/-- `filter_record_batch` with a mask computed row by row. -/
def filterRows (keep : Row V → Bool) (batch : RecordBatch V) : RecordBatch V :=
  batch.restrict (batch.rows.filter keep) (filter_subset_self _)

def slice (offset length : Nat) (batch : RecordBatch V) : RecordBatch V :=
  batch.restrict ((batch.rows.drop offset).take length)
    (fun _ h => mem_of_mem_drop (mem_of_mem_take h))

/-- `take` on every column with one list of indices. -/
def gather (indices : List Nat) (batch : RecordBatch V) : RecordBatch V :=
  batch.restrict (indices.filterMap fun i => batch.rows[i]?) (by
    intro row hrow
    obtain ⟨i, -, hi⟩ := mem_filterMap.mp hrow
    exact mem_of_getElem? hi)

@[simp] theorem gather_schema (indices : List Nat) (batch : RecordBatch V) :
    (batch.gather indices).schema = batch.schema := rfl

@[simp] theorem gather_rows (indices : List Nat) (batch : RecordBatch V) :
    (batch.gather indices).rows = indices.filterMap fun i => batch.rows[i]? :=
  rfl

@[simp] theorem slice_schema (offset length : Nat) (batch : RecordBatch V) :
    (batch.slice offset length).schema = batch.schema := rfl

@[simp] theorem slice_rows (offset length : Nat) (batch : RecordBatch V) :
    (batch.slice offset length).rows = (batch.rows.drop offset).take length :=
  rfl

theorem length_of_mem {batch : RecordBatch V} {row : Row V}
    (h : row ∈ batch.rows) : row.length = batch.schema.length :=
  length_of_rowFits (batch.fits row h)

section Kernels

variable [ArrowKernels V]

def arrowError {α : Type} (V : Type) [ArrowKernels V] (e : ArrowError) :
    Fallible α :=
  Fallible.fail (ArrowKernels.errorText V e)

/--
`RecordBatch::try_new` on columns of the given types.  The columns come from
batches of one length, so only their number, types and NULLs can be wrong.
-/
def tryNew (schema : Schema) (types : List DataType) (rows : List (Row V)) :
    Fallible (RecordBatch V) :=
  if schema = [] then arrowError V .noColumns
  else if types.length ≠ schema.length then arrowError V .columnCount
  else if types ≠ schema.types then arrowError V .typeMismatch
  else if h : ∀ row ∈ rows, rowFits schema row = true then
    .ok ⟨schema, rows, h⟩
  else arrowError V .nullInRequired

theorem tryNew_ok (batch : RecordBatch V) (h : batch.schema ≠ []) :
    tryNew batch.schema batch.schema.types batch.rows = .ok batch := by
  have hlength : ¬ batch.schema.types.length ≠ batch.schema.length := by
    simp [Schema.types]
  have htypes : ¬ batch.schema.types ≠ batch.schema.types := by simp
  unfold tryNew
  rw [if_neg h, if_neg hlength, if_neg htypes, dif_pos batch.fits]

theorem tryNew_parts {schema : Schema} {types : List DataType}
    {rows : List (Row V)}
    {batch : RecordBatch V} (h : tryNew schema types rows = .ok batch) :
    batch.schema = schema ∧ batch.rows = rows ∧ schema ≠ [] ∧
    types = schema.types := by
  unfold tryNew at h
  split at h
  · cases h
  rename_i hschema
  split at h
  · cases h
  split at h
  · cases h
  rename_i htypes
  split at h
  · cases h
    exact ⟨rfl, rfl, hschema, not_not.mp htypes⟩
  · cases h

/--
`concat_batches`: columns are concatenated by position, so later batches may
have more columns than the schema but not fewer.
-/
def concatBatches (schema : Schema) (batches : List (RecordBatch V)) :
    Fallible (RecordBatch V) := do
  let width := schema.length
  if batches.any fun b => b.schema.length < width then
    Fallible.panic .indexOutOfBounds
  else if batches.any fun b => b.schema.types.take width ≠ schema.types then
    arrowError V .typeMismatch
  else
    let rows := batches.flatMap fun b => b.rows.map (·.take width)
    if h : ∀ row ∈ rows, rowFits schema row = true then
      .ok ⟨schema, rows, h⟩
    else arrowError V .nullInRequired

def keyOf (columns : List Nat) (row : Row V) : Row V :=
  columns.map fun i => row[i]?.join

end Kernels

end RecordBatch

end Fuse.Core
