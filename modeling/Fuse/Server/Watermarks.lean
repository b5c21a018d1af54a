import Fuse.Engine.UnionTypes
import Fuse.Server.RefreshScheduler
import Mathlib.Order.MinMax

/-!
# The watermark of a column

`extract_max_watermark` casts the column to text and keeps the largest text,
which for integers need not be that of the largest value.
-/

namespace Fuse.Server

open Foundation Fuse.Core Engine List

/-- The text of a value that no value of the list exceeds. -/
def IsLargest {α : Type} [LE α] (text : α → Str) (values : List α) :
    Option Str → Prop
  | none => values = []
  | some mark => ∃ top ∈ values, text top = mark ∧ ∀ value ∈ values, value ≤ top

theorem isLargest_max_iff {α : Type} [LinearOrder α] (text : α → Str)
    (values : List α) :
    IsLargest text values (values.map text).max? ↔
      ∀ top ∈ values, (∀ value ∈ values, value ≤ top) →
        ∀ value ∈ values, text value ≤ text top := by
  cases hmark : (values.map text).max? with
  | none => simp_all [IsLargest]
  | some mark =>
    obtain ⟨hmem, hle⟩ := max?_eq_some_iff.mp hmark
    simp only [forall_mem_map] at hle
    constructor
    · rintro ⟨best, hbest, rfl, hlargest⟩ top htop habove value hvalue
      rw [le_antisymm (hlargest top htop) (habove best hbest)]
      exact hle value hvalue
    · intro htexts
      obtain ⟨last, hlast, rfl⟩ := mem_map.mp hmem
      obtain ⟨top, htop⟩ := Option.ne_none_iff_exists'.mp
        (mt max?_eq_none_iff.mp (ne_nil_of_mem hlast))
      obtain ⟨htop, hlargest⟩ := max?_eq_some_iff.mp htop
      exact ⟨top, htop, le_antisymm (hle top htop)
        (htexts top htop hlargest last hlast), hlargest⟩

section Columns

variable {V : Type} [ArrowKernels V] [TextReads] (K : DefaultCasts V)
  (column : Str)

structure HoldsColumn (type : DataType) (batch : RecordBatch V) : Prop where
  field : ∃ i f, batch.schema.indexOf column = some i ∧
    batch.schema[i]? = some f ∧ f.dataType = type
  cells : ∀ row ∈ batch.rows, ∀ v ∈ cellNamed batch.schema row column,
    ∀ kind ∈ plainKind type, (K.view v).HasKind kind

def integerOf : PlainCell → Option Int
  | .int n => some n
  | _ => none

def textOf : PlainCell → Option Str
  | .text s => some s
  | _ => none

def columnValues {α : Type} (read : PlainCell → Option α)
    (batches : List (RecordBatch V)) :
    List α :=
  batches.flatMap fun b => b.rows.filterMap fun row =>
    (cellNamed b.schema row column).bind fun v => read (K.view v)

variable {K column} {type : DataType} {kind : PlainKind} {batch : RecordBatch V}
  {batches : List (RecordBatch V)}

private theorem textColumn_values (hkind : plainKind type = some kind)
    (h : HoldsColumn K column type batch) :
    textColumn column batch = some (batch.rows.map fun row =>
      (cellNamed batch.schema row column).map fun v => (K.view v).shown) := by
  obtain ⟨i, f, hi, hf, rfl⟩ := h.field
  have hcell : ∀ row : Row V, cellNamed batch.schema row column =
      row[i]?.join := fun row => by
    simp [cellNamed, hi]
  simp only [textColumn, hi, hf, bind, Option.bind]
  split
  · simp [hcell, funext K.display]
  rw [if_pos (K.canCast (by simp [hkind]) rfl)]
  refine congrArg some (map_congr_left fun row hrow => ?_)
  cases hv : row[i]?.join with
  | none => simp [hcell, hv]
  | some v =>
    have hv' := (hcell row).trans hv
    have hview : (ArrowKernels.castValue f.dataType .utf8 v).map K.view = _ :=
      K.castValue hkind rfl (h.cells row hrow v hv' kind hkind)
    obtain ⟨w, hw, hshown⟩ := Option.map_eq_some_iff.mp hview
    simp [hcell, hv, hw, K.display, hshown, PlainCell.shown]

theorem extractMaxWatermark_values {α : Type} (read : PlainCell → Option α)
    (text : α → Str) (hkind : plainKind type = some kind)
    (hread : ∀ c : PlainCell, c.HasKind kind → (read c).map text = some c.shown)
    (h : ∀ b ∈ batches, HoldsColumn K column type b) :
    extractMaxWatermark batches column =
      ((columnValues K column read batches).map text).max? := by
  have hcolumns : batches.mapM _ = some _ :=
    (mapM_congr_mem fun b hb => textColumn_values hkind (h b hb)).trans
    mapM_pure
  simp only [extractMaxWatermark, hcolumns, bind, Option.bind]
  congr 1
  rw [← flatMap_def, filterMap_flatMap, columnValues, map_flatMap]
  refine flatMap_congr fun b hb => ?_
  rw [filterMap_map, map_filterMap]
  refine filterMap_congr fun row hrow => ?_
  cases hv : cellNamed b.schema row column with
  | none => simp [hv]
  | some v => simp [hv, hread _ ((h b hb).cells row hrow v hv kind hkind)]

/--
The watermark of a text column is its largest value, and that of an integer
column if and only if no value has a larger text than the largest value.
-/
theorem extractMaxWatermark_largest_iff :
    ((∀ b ∈ batches, HoldsColumn K column .utf8 b) →
      IsLargest id (columnValues K column textOf batches)
      (extractMaxWatermark batches column)) ∧
    ((∀ b ∈ batches, HoldsColumn K column .int64 b) →
      (IsLargest Str.ofInt (columnValues K column integerOf batches)
          (extractMaxWatermark batches column) ↔
        ∀ top ∈ columnValues K column integerOf batches,
          (∀ n ∈ columnValues K column integerOf batches, n ≤ top) →
            ∀ n ∈ columnValues K column integerOf batches,
            Str.ofInt n ≤ Str.ofInt top)) := by
  refine ⟨fun h => ?_, fun h => ?_⟩
  · rw [extractMaxWatermark_values textOf id rfl ?_ h, isLargest_max_iff]
    · exact fun _ _ hlargest => hlargest
    · rintro (_ | _ | _) hc <;> first | rfl | cases hc
  · rw [extractMaxWatermark_values integerOf Str.ofInt rfl ?_ h,
      isLargest_max_iff]
    rintro (_ | _ | _) hc <;> first | rfl | cases hc

end Columns

section Example

attribute [local instance] decimalReads plainKernels

def watermarkBatch (cells : List (Option PlainCell)) :
    RecordBatch PlainCell where
  schema := (cellBatch .int64 (.int 0)).schema
  rows := cells.map ([·])
  fits row hrow := by
    obtain ⟨cell, -, rfl⟩ := mem_map.mp hrow
    rfl

theorem eight_largest :
    let batches := [watermarkBatch [some (.int 7), none],
      watermarkBatch [some (.int 8)]]
    IsLargest Str.ofInt (columnValues plainCasts "x" integerOf batches)
      (extractMaxWatermark batches "x") := by
  refine (extractMaxWatermark_largest_iff.2 ?_).mpr (by decide +kernel)
  refine forall_mem_cons.mpr ⟨⟨⟨0, _, rfl, rfl, rfl⟩, ?_⟩,
    forall_mem_singleton.mpr ⟨⟨0, _, rfl, rfl, rfl⟩, ?_⟩⟩
  · refine forall_mem_cons.mpr ⟨?_, forall_mem_singleton.mpr nofun⟩
    rintro _ ⟨⟩ _ ⟨⟩
    simp [PlainCell.HasKind, plainCasts]
  · refine forall_mem_singleton.mpr ?_
    rintro _ ⟨⟩ _ ⟨⟩
    simp [PlainCell.HasKind, plainCasts]

theorem nine_above_ten : extractMaxWatermark
    [cellBatch .int64 (.int 9), cellBatch .int64 (.int 10)] "x" =
      some "9".toList := by
  decide +kernel

end Example

end Fuse.Server
