import Fuse.Engine.UnionRows
import Fuse.Foundation.KeyOrder

/-!
# De-duplication

`dedup_batches` sorts the rows by the columns it compares, all ascending, and
drops each row that has the text of the row before it.  What is left has one
row for each tuple of these columns, in their order, whatever the order of the
input was.
-/

namespace Fuse.Engine

open Foundation Fuse.Core List RecordBatch

section Order

variable {V : Type} [LinearOrder V]

def cellAt (row : Row V) (i : Nat) : WithBot V := row[i]?.join

private theorem columnKey_lt_iff (descending : Bool) (x y : Option V) :
    columnKey descending x < columnKey descending y ↔
      KeyOrder.Precedes (A := WithBot V) descending x y := by
  cases descending with
  | false => exact Sum.Lex.inl_lt_inl_iff
  | true => exact Sum.Lex.inr_lt_inr_iff

theorem tupleKey_le_iff (keys : List (Nat × Bool)) (a b : Row V) :
    tupleKey (keys.map (·.2)) (keyOf (keys.map (·.1)) a) ≤
        tupleKey (keys.map (·.2)) (keyOf (keys.map (·.1)) b) ↔
      KeyOrder.Before keys (cellAt a) (cellAt b) := by
  induction keys with
  | nil => simp [tupleKey, KeyOrder.Before]
  | cons key keys ih =>
    obtain ⟨i, d⟩ := key
    change columnKey d a[i]?.join :: _ ≤ columnKey d b[i]?.join :: _ ↔ _
    rw [cons_le_cons_iff, columnKey_lt_iff, (columnKey_injective d).eq_iff]
    exact or_congr_right (and_congr_right fun _ => ih)

theorem exists_cellAt_ne {columns : List Nat} {a b : Row V}
    (h : keyOf columns a ≠ keyOf columns b) :
    ∃ c ∈ columns, cellAt a c ≠ cellAt b c := by
  by_contra hall
  push Not at hall
  exact h (map_congr_left hall)

end Order

section Batches

variable {V : Type} [ArrowKernels V]

/-! ## Dropping repeated rows -/

def DebugFaithful (V : Type) [ArrowKernels V] : Prop :=
  ∀ dt : DataType, Function.Injective (ArrowKernels.debug (V := V) dt)

def ColumnsFaithful (V : Type) [ArrowKernels V] (schema : Schema)
    (columns : List Nat) : Prop :=
  ∀ i ∈ columns, Function.Injective (ArrowKernels.debug (V := V)
    ((schema[i]?.map (·.dataType)).getD (.other [])))

variable {schema : Schema} {columns : List Nat} {batches : List (RecordBatch V)}
  {names : List Str}

theorem dedupText_eq_iff (hdebug : ColumnsFaithful V schema columns)
    (a b : Row V) : dedupText schema columns a = dedupText schema columns b ↔
      keyOf columns a = keyOf columns b := by
  induction columns with
  | nil => simp [dedupText, keyOf]
  | cons i columns ih =>
    obtain ⟨hcolumn, hrest⟩ := forall_mem_cons.mp hdebug
    change _ :: dedupText schema columns a = _ :: dedupText schema columns b ↔
      a[i]?.join :: keyOf columns a = b[i]?.join :: keyOf columns b
    rw [List.cons.injEq, List.cons.injEq, ih hrest, hcolumn.eq_iff]

omit [ArrowKernels V] in
theorem exists_mem_dropRepeats (text : Row V → List Str) {row : Row V}
    {rows : List (Row V)} (h : row ∈ rows) (previous : Option (List Str)) :
    (∃ kept ∈ dropRepeats text previous rows, text kept = text row) ∨
      previous = some (text row) := by
  induction rows generalizing previous with
  | nil => cases h
  | cons first rows ih =>
    rw [dropRepeats]
    rcases mem_cons.mp h with rfl | h
    · split
      · next heq => exact .inr heq
      · exact .inl ⟨row, by simp, rfl⟩
    split
    · next heq => exact heq ▸ ih h _
    · rcases ih h (some (text first)) with ⟨kept, hkept, heq⟩ | heq
      · exact .inl ⟨kept, by simp [hkept], heq⟩
      · exact .inl ⟨first, by simp, Option.some.inj heq⟩

section Sorted

variable {K : Type} [LinearOrder K] {text : Row V → List Str}
  {key : Row V → K} (htext : ∀ a b, text a = text b ↔ key a = key b)

include htext

variable {rows : List (Row V)}

omit [ArrowKernels V] in
theorem lt_of_mem_dropRepeats {row kept : Row V}
    (hsorted : (row :: rows).Pairwise fun a b => key a ≤ key b)
    (h : kept ∈ dropRepeats text (some (text row)) rows) :
    key row < key kept := by
  induction rows with
  | nil => cases h
  | cons next rows ih =>
    obtain ⟨hle, hrest⟩ := pairwise_cons.mp hsorted
    rw [dropRepeats] at h
    split at h
    · rename_i heq
      rw [← heq] at h
      exact ih (hsorted.sublist (by simp)) h
    rename_i hne
    have hlt : key row < key next := by
      refine lt_of_le_of_ne (hle next (by simp)) ?_
      intro heq
      exact hne (congrArg some ((htext _ _).mpr heq))
    rcases mem_cons.mp h with rfl | h
    · exact hlt
    · -- `next` is below everything behind it
      have hmem := dropRepeats_subset _ _ _ h
      exact hlt.trans_le ((pairwise_cons.mp hrest).1 kept hmem)

omit [ArrowKernels V] in
theorem dropRepeats_strict (hsorted : rows.Pairwise fun a b => key a ≤ key b)
    (previous : Option (List Str)) :
    (dropRepeats text previous rows).Pairwise fun a b => key a < key b := by
  induction rows generalizing previous with
  | nil => exact .nil
  | cons row rows ih =>
    have hrest := (pairwise_cons.mp hsorted).2
    rw [dropRepeats]
    split
    · exact ih hrest _
    · exact pairwise_cons.mpr ⟨fun kept hkept =>
        lt_of_mem_dropRepeats htext hsorted hkept, ih hrest _⟩

end Sorted

/-! ## One batch of distinct rows -/

def columnsKey (columns : List Nat) (row : Row V) : List (ColumnKey V) :=
  tupleKey (columns.map fun _ => false) (keyOf columns row)

omit [ArrowKernels V] in
theorem columnsKey_eq_iff {a b : Row V} :
    columnsKey columns a = columnsKey columns b ↔
      keyOf columns a = keyOf columns b := by
  refine ⟨tupleKey_injective ?_ ?_, congrArg _⟩ <;> simp [length_keyOf]

omit [ArrowKernels V] in
theorem columnsKey_le_iff [LinearOrder V] {a b : Row V} :
    columnsKey columns a ≤ columnsKey columns b ↔
      KeyOrder.Before (KeyOrder.ascending columns) (cellAt a) (cellAt b) := by
  have h := tupleKey_le_iff (KeyOrder.ascending columns) a b
  simp only [KeyOrder.ascending, map_map, Function.comp_def, map_id'] at h
  exact h

theorem dedupBatches_columns [LinearOrder V] (hsort : LexsortSorts V)
    (hne : batches ≠ [])
    (hschema : ∀ b ∈ batches, b.schema = schema) (hnames : names ≠ [])
    (hcolumns : resolveColumns schema names = .ok columns)
    (hdebug : ColumnsFaithful V schema columns) :
    ∃ distinct, dedupBatches batches names = .ok [distinct] ∧
    distinct.schema = schema ∧ distinct.rows ⊆ batches.flatMap (·.rows) ∧
      (∀ row ∈ batches.flatMap (·.rows), ∃ kept ∈ distinct.rows,
        keyOf columns kept = keyOf columns row) ∧
      distinct.rows.Pairwise fun a b =>
        columnsKey columns a < columnsKey columns b := by
  obtain ⟨first, rest, rfl⟩ := exists_cons_of_ne_nil hne
  have hfirst : first.schema = schema := hschema first (by simp)
  obtain ⟨merged, hmerged, hmschema, hmrows⟩ := concatBatches_same hschema
  obtain ⟨sorted, hsorted, hsschema, hperm, hpairwise⟩ :=
    sortRows_sorted hsort merged columns
    (columns.map fun _ => false) (by simp)
  have hoptions : ((columns.map fun _ => false).map sortOption) = columns.map
      fun _ =>
        ({ descending := false, nullsFirst := true } : SortOptions) := by
          simp [sortOption]
  rw [hoptions] at hsorted
  have hmem : ∀ row, row ∈ sorted.rows ↔
      row ∈ (first :: rest).flatMap (·.rows) := by
    intro row
    rw [hperm.mem_iff, hmrows]
  refine ⟨sorted.restrict
    (dropRepeats (dedupText schema columns) none sorted.rows)
    (dropRepeats_subset _ _ _), ?_, hsschema.trans hmschema, ?_, ?_, ?_⟩
  · simp only [dedupBatches, hnames, if_false, hfirst, hmerged, hcolumns,
      hsorted, bind, Except.bind]
    rfl
  · intro row hrow
    exact (hmem row).mp (dropRepeats_subset _ _ _ hrow)
  · intro row hrow
    rcases exists_mem_dropRepeats (dedupText schema columns)
      ((hmem row).mpr hrow) none with ⟨kept, hkept, heq⟩ | hnone
    · exact ⟨kept, hkept, (dedupText_eq_iff hdebug _ _).mp heq⟩
    · cases hnone
  · exact dropRepeats_strict (fun a b => (dedupText_eq_iff hdebug _ _).trans
      columnsKey_eq_iff.symm) hpairwise none

theorem dedupBatches_strict [LinearOrder V] (hsort : LexsortSorts V)
    (hdebug : DebugFaithful V)
    (hne : batches ≠ []) (hschema : ∀ b ∈ batches, b.schema = schema)
    (hnames : names ≠ [])
    (hcolumns : resolveColumns schema names = .ok columns) :
    ∃ distinct, dedupBatches batches names = .ok [distinct] ∧
    distinct.schema = schema ∧ distinct.rows ⊆ batches.flatMap (·.rows) ∧
      (∀ row ∈ batches.flatMap (·.rows), ∃ kept ∈ distinct.rows,
        keyOf columns kept = keyOf columns row) ∧
      distinct.rows.Pairwise fun a b =>
        columnsKey columns a < columnsKey columns b :=
  dedupBatches_columns hsort hne hschema hnames hcolumns fun _ _ => hdebug _

/-! ## One row for each tuple of named columns -/

omit [ArrowKernels V] in
private theorem resolveColumns_named (h : ∀ name ∈ names, name ∈ schema.names) :
    ∃ columns, resolveColumns schema names = .ok columns ∧
      (∀ i ∈ columns, ∃ name ∈ names, schema.indexOf name = some i) ∧
      ∀ row : Row V, keyOf columns row = names.map (cellNamed schema row) := by
  induction names with
  | nil => exact ⟨[], rfl, by simp, fun row => rfl⟩
  | cons name names ih =>
    obtain ⟨hname, hrest⟩ := forall_mem_cons.mp h
    obtain ⟨columns, hcolumns, hnamed, hkey⟩ := ih hrest
    obtain ⟨i, hi⟩ : ∃ i, schema.indexOf name = some i := by
      rw [← Option.isSome_iff_exists, Schema.indexOf, findIdx?_isSome]
      simpa [Schema.names] using hname
    refine ⟨i :: columns, ?_, ?_, fun row => ?_⟩
    · rw [resolveColumns] at hcolumns ⊢
      rw [mapM_cons, hcolumns]
      simp only [hi]
      rfl
    · refine forall_mem_cons.mpr ⟨⟨name, by simp, hi⟩, fun j hj => ?_⟩
      obtain ⟨other, hother, hj⟩ := hnamed j hj
      exact ⟨other, by simp [hother], hj⟩
    · change row[i]?.join :: keyOf columns row = _
      rw [hkey row, map_cons, cellNamed, hi, Option.bind_some]

/-- Every output row is an input row, and every tuple of the named columns that
occurs in the input is in exactly one row. -/
theorem dedupBatches_exact [LinearOrder V] (hsort : LexsortSorts V)
    {schema : Schema} {batches : List (RecordBatch V)} (hschema : ∀ b ∈ batches,
      b.schema = schema) {names : List Str}
    (hnames : names ≠ []) (hfound : ∀ name ∈ names, name ∈ schema.names)
    (hdebug : ∀ field ∈ schema, field.name ∈ names →
      Function.Injective (ArrowKernels.debug (V := V) field.dataType)) :
    ∃ out, dedupBatches batches names = .ok out ∧
      out.flatMap (·.rows) ⊆ batches.flatMap (·.rows) ∧
      ∀ row ∈ batches.flatMap (·.rows),
      (out.flatMap (·.rows)).countP (fun kept =>
        names.map (cellNamed schema kept) = names.map (cellNamed schema row)) =
      1 := by
  by_cases hempty : batches = []
  · exact ⟨[], by simp [hempty, dedupBatches], by simp, by simp [hempty]⟩
  obtain ⟨columns, hcolumns, hnamed, hkey⟩ :=
    resolveColumns_named hfound (V := V)
  have hfaithful : ColumnsFaithful V schema columns := by
    intro i hi
    obtain ⟨name, hname, hindex⟩ := hnamed i hi
    obtain ⟨field, hfield, hat, rfl⟩ := field_of_indexOf hindex
    rw [hat]
    exact hdebug field hfield hname
  obtain ⟨distinct, hok, -, hsubset, hcovers, hstrict⟩ :=
    dedupBatches_columns hsort hempty hschema hnames hcolumns hfaithful
  refine ⟨[distinct], hok, by simpa using hsubset, fun row hrow => ?_⟩
  obtain ⟨kept, hkept, hsame⟩ := hcovers row hrow
  rw [flatMap_singleton]
  refine KeyOrder.countP_eq_one_of_strict hstrict hkept fun a => ?_
  rw [decide_eq_true_eq, ← hkey, ← hkey, ← hsame, columnsKey_eq_iff]

end Batches

section Examples

@[reducible] def quotedCells : ArrowKernels Str :=
  { textCells with
    debug := fun _ cell => cell.elim "null" fun text => '"' :: text }

attribute [local instance] quotedCells

theorem quotedCells_sorts : LexsortSorts Str := by
  intro descending keys _
  exact ⟨_, rfl, lexsortByKeys_sorts descending keys⟩

theorem quotedCells_faithful : DebugFaithful Str := by
  intro dt a b h
  cases a <;> cases b <;> simp_all [ArrowKernels.debug]

def repeatedHosts : RecordBatch Str :=
  columnsBatch ["host", "load"] [[some "web".toList, some "3".toList],
    [none, none], [some "web".toList, some "5".toList]] (by simp)

theorem repeated_host_once :
    ∃ out, dedupBatches [repeatedHosts] ["host"] = .ok out ∧
    out.flatMap (·.rows) ⊆ repeatedHosts.rows ∧
    (out.flatMap (·.rows)).countP (fun kept =>
      cellNamed repeatedHosts.schema kept "host" = some "web".toList) = 1 := by
  obtain ⟨out, hout, hsubset, honce⟩ := dedupBatches_exact quotedCells_sorts
    (show ∀ b ∈ [repeatedHosts], b.schema = repeatedHosts.schema by simp)
    (show [("host" : Str)] ≠ [] by simp) (by decide) fun _ _ _ =>
    quotedCells_faithful _
  have hweb := honce [some "web".toList, some "3".toList] (by decide)
  have hcell : cellNamed repeatedHosts.schema
      [some "web".toList, some "3".toList] "host" = some "web".toList := by
    decide
  refine ⟨out, hout, by simpa using hsubset, ?_⟩
  simpa only [map_cons, map_nil, hcell, List.cons.injEq, and_true] using hweb

end Examples

end Fuse.Engine
