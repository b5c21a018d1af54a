import Fuse.Engine.Merger
import Mathlib.Data.Char
import Mathlib.Data.List.Lex
import Mathlib.Data.List.Sort
import Mathlib.Data.Sum.Order
import Mathlib.Order.WithBot

/-!
# The order of `ORDER BY`

The order in which `sort_batches` lists rows, as a linear order on key tuples:
NULL comes below every value, a descending column is turned around, and tuples
are compared from the left.  `LexsortSorts` says that Arrow's `lexsort` follows
it; under that assumption the batches `sort_batches` returns are a sorted
permutation of its input.
-/

namespace Fuse.Engine

open Foundation Fuse.Core List

section Order

variable {V : Type} [LinearOrder V]

abbrev ColumnKey (V : Type) := Lex (WithBot V ⊕ (WithBot V)ᵒᵈ)

def columnKey (descending : Bool) (cell : Option V) : ColumnKey V :=
  if descending then Sum.inrₗ (OrderDual.toDual (cell : WithBot V))
  else Sum.inlₗ (cell : WithBot V)

def tupleKey (descending : List Bool) (tuple : Row V) : List (ColumnKey V) :=
  List.zipWith columnKey descending tuple

omit [LinearOrder V] in
theorem columnKey_injective (descending : Bool) :
    Function.Injective (columnKey (V := V) descending) := by
  intro a b h
  unfold columnKey at h
  split at h
  · exact OrderDual.toDual.injective (Sum.inr.inj (toLex.injective h))
  · exact Sum.inl.inj (toLex.injective h)

omit [LinearOrder V] in
theorem tupleKey_injective {descending : List Bool} {a b : Row V}
    (ha : a.length = descending.length) (hb : b.length = descending.length)
    (h : tupleKey descending a = tupleKey descending b) : a = b := by
  induction descending generalizing a b with
  | nil =>
    rw [eq_nil_of_length_eq_zero ha, eq_nil_of_length_eq_zero hb]
  | cons d ds ih =>
    obtain ⟨x, xs, rfl⟩ := exists_cons_of_length_eq_add_one ha
    obtain ⟨y, ys, rfl⟩ := exists_cons_of_length_eq_add_one hb
    simp only [tupleKey, zipWith_cons_cons, List.cons.injEq] at h
    rw [columnKey_injective d h.1,
      ih (by simpa using ha) (by simpa using hb) h.2]

theorem cons_le_cons_iff {K : Type} [LinearOrder K] {a b : K}
    {as bs : List K} : a :: as ≤ b :: bs ↔ a < b ∨ a = b ∧ as ≤ bs := by
  rw [le_iff_lt_or_eq, le_iff_lt_or_eq, cons_lt_cons_iff, List.cons.injEq]
  tauto

def sortOption (descending : Bool) : SortOptions :=
  { descending, nullsFirst := !descending }

/-- Arrow's `lexsort` lists all rows in the order of their keys. -/
def LexsortSorts (V : Type) [LinearOrder V] [ArrowKernels V] : Prop :=
  ∀ (descending : List Bool) (keys : List (Row V)),
    (∀ key ∈ keys, key.length = descending.length) →
    ∃ indices, ArrowKernels.lexsort (descending.map sortOption) keys =
      some indices ∧
      indices.Perm (List.range keys.length) ∧
      (indices.filterMap fun i => keys[i]?).Pairwise fun a b =>
        tupleKey descending a ≤ tupleKey descending b

end Order

section Comparison

variable {V : Type} [LinearOrder V]

def lexsortByKeys (options : List SortOptions) (keys : List (Row V)) :
    List Nat :=
  let key (i : Nat) := tupleKey (options.map (·.descending)) (keys.getD i [])
  (List.range keys.length).insertionSort fun i j => key i ≤ key j

theorem lexsortByKeys_sorts (descending : List Bool) (keys : List (Row V)) :
    let indices := lexsortByKeys (descending.map sortOption) keys
    indices.Perm (List.range keys.length) ∧
      (indices.filterMap fun i => keys[i]?).Pairwise fun a b =>
        tupleKey descending a ≤ tupleKey descending b := by
  have hdirections : (descending.map sortOption).map (·.descending) =
      descending := by
    rw [map_map]
    exact map_id descending
  unfold lexsortByKeys
  rw [hdirections]
  refine ⟨perm_insertionSort _ _, ?_⟩
  rw [pairwise_filterMap]
  refine (pairwise_insertionSort _ _).imp ?_
  intro i j hij a ha b hb
  simpa [List.getD, ha, hb] using hij

end Comparison

@[reducible] def textCells : ArrowKernels Str where
  ofText _ text := text
  ofF64 _ _ := []
  display := id
  debug _ cell := cell.getD "NULL"
  canCast _ _ := false
  castValue _ _ _ := none
  lexsort options keys := some (lexsortByKeys options keys)
  errorText _ := "arrow error"

theorem textCells_sorts : letI := textCells; LexsortSorts Str := by
  intro descending keys _
  exact ⟨_, rfl, lexsortByKeys_sorts descending keys⟩

section Batches

variable {V : Type} [ArrowKernels V]

variable {batches : List (RecordBatch V)}

theorem concatBatches_same {schema : Schema}
    (h : ∀ b ∈ batches, b.schema = schema) :
    ∃ merged, RecordBatch.concatBatches schema batches = .ok merged ∧
    merged.schema = schema ∧ merged.rows = batches.flatMap (·.rows) := by
  have hrows : (batches.flatMap fun b =>
      b.rows.map (·.take schema.length)) = batches.flatMap (·.rows) := by
    apply flatMap_congr
    intro b hb
    have hid : ∀ row ∈ b.rows, row.take schema.length = row := by
      intro row hrow
      rw [take_of_length_le]
      rw [RecordBatch.length_of_mem hrow, h b hb]
    rw [map_congr_left hid, map_id']
  have hfits : ∀ row ∈ batches.flatMap (·.rows), rowFits schema row = true := by
    intro row hrow
    obtain ⟨b, hb, hrow⟩ := mem_flatMap.mp hrow
    exact h b hb ▸ b.fits row hrow
  have hwidth : (batches.any fun b =>
      decide (b.schema.length < schema.length)) = false := by
    simp only [any_eq_false, decide_eq_true_eq]
    intro b hb
    rw [h b hb]
    omega
  have htypes : (batches.any fun b =>
      decide (b.schema.types.take schema.length ≠ schema.types)) = false := by
    simp only [any_eq_false, decide_eq_true_eq, not_not]
    intro b hb
    rw [h b hb, take_of_length_le (by simp [Schema.types])]
  refine ⟨⟨schema, batches.flatMap (·.rows), hfits⟩, ?_, rfl, rfl⟩
  unfold RecordBatch.concatBatches
  simp only [hwidth, htypes, Bool.false_eq_true, if_false]
  rw [dif_pos (by rw [hrows]; exact hfits)]
  simp [hrows]

theorem filterMap_range_getElem? {α : Type} (l : List α) :
    ((List.range l.length).filterMap fun i => l[i]?) = l := by
  induction l with
  | nil => rfl
  | cons a l ih =>
    rw [length_cons, range_succ_eq_map, filterMap_cons, filterMap_map]
    simpa [Function.comp_def] using ih

omit [ArrowKernels V] in
theorem gather_perm {batch : RecordBatch V} {indices : List Nat}
    (h : indices.Perm (List.range batch.rows.length)) :
    (batch.gather indices).rows.Perm batch.rows := by
  have hperm := h.filterMap fun i => batch.rows[i]?
  rwa [filterMap_range_getElem?] at hperm

omit [ArrowKernels V] in
theorem length_keyOf (columns : List Nat) (row : Row V) :
    (RecordBatch.keyOf columns row).length = columns.length := by
  simp [RecordBatch.keyOf]

theorem sortRows_sorted [LinearOrder V] (hsort : LexsortSorts V)
    (batch : RecordBatch V) (columns : List Nat) (descending : List Bool)
    (hlength : columns.length = descending.length) :
    ∃ sorted, sortRows batch columns (descending.map sortOption) none =
        .ok sorted ∧ sorted.schema = batch.schema ∧
      sorted.rows.Perm batch.rows ∧
      sorted.rows.Pairwise fun a b =>
        tupleKey descending (RecordBatch.keyOf columns a) ≤
          tupleKey descending (RecordBatch.keyOf columns b) := by
  obtain ⟨indices, heq, hperm, hpairwise⟩ := hsort descending
    (batch.rows.map (RecordBatch.keyOf columns)) (by
      intro key hkey
      obtain ⟨row, -, rfl⟩ := mem_map.mp hkey
      rw [length_keyOf, hlength])
  rw [length_map] at hperm
  have hkeys : (indices.filterMap fun i =>
      (batch.rows.map (RecordBatch.keyOf columns))[i]?) =
        (batch.gather indices).rows.map (RecordBatch.keyOf columns) := by
    simp [map_filterMap]
  rw [hkeys, pairwise_map] at hpairwise
  refine ⟨batch.gather indices, ?_, rfl, gather_perm hperm, hpairwise⟩
  simp [sortRows, heq]

theorem sortBatches_sorted [LinearOrder V] (hsort : LexsortSorts V)
    {schema : Schema}
    (hne : batches ≠ []) (hschema : ∀ b ∈ batches, b.schema = schema)
    {keys : List (Nat × Bool)}
    (hkeys : keys ≠ []) (hbound : ∀ key ∈ keys, key.1 < schema.length) :
    ∃ sorted, sortBatches batches (keys.map (·.1)) (keys.map (·.2)) none =
        .ok [sorted] ∧ sorted.schema = schema ∧
      sorted.rows.Perm (batches.flatMap (·.rows)) ∧
      sorted.rows.Pairwise fun a b =>
        tupleKey (keys.map (·.2)) (RecordBatch.keyOf (keys.map (·.1)) a) ≤
          tupleKey (keys.map (·.2)) (RecordBatch.keyOf (keys.map (·.1)) b) := by
  obtain ⟨first, rest, rfl⟩ := exists_cons_of_ne_nil hne
  have hfirst : first.schema = schema := hschema first (by simp)
  obtain ⟨merged, hmerged, hmschema, hmrows⟩ := concatBatches_same hschema
  obtain ⟨sorted, hsorted, hsschema, hperm, hpairwise⟩ :=
    sortRows_sorted hsort merged (keys.map (·.1)) (keys.map (·.2)) (by simp)
  refine ⟨sorted, ?_, hsschema.trans hmschema, hmrows ▸ hperm, hpairwise⟩
  have hzip : (keys.map (·.1)).zip (keys.map (·.2)) = keys := by
    rw [zip_map']
    simp
  have hin : (keys.any fun key => decide (schema.length ≤ key.1)) = false := by
    simp only [any_eq_false, decide_eq_true_eq, Nat.not_le]
    exact hbound
  have hoptions : (keys.map fun key => sortOption key.2) =
      (keys.map (·.2)).map sortOption := by simp
  simp only [sortBatches, map_eq_nil_iff, hkeys, if_false, hfirst,
    hmerged, hzip, bind, Except.bind, hin, Bool.false_eq_true]
  change Except.bind (sortRows merged (keys.map fun key => key.1)
    (keys.map fun key => sortOption key.2) none) (fun s => .ok [s]) = _
  rw [hoptions, hsorted]
  rfl

end Batches

end Fuse.Engine
