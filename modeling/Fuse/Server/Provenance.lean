import Fuse.Engine.ReferenceJoin
import Fuse.Server.Reaggregate

/-!
# Where a cell comes from

A `Sourced` cell carries the fields it was computed from.  The pipeline runs
on such cells as it does on plain ones.  `AllTracked G batches` says that the
batches have one schema and that a cell under the name `n` comes only from
fields `o` with `G n o`; every step between the sources and the column
policies keeps it.
-/

namespace Fuse.Server

open Foundation Fuse.Core Engine List Fallible

structure Origin where
  datasource : Str
  table : Str
  field : Str
  deriving DecidableEq, Repr

structure Sourced (V : Type) where
  value : V
  origins : List Origin
  deriving DecidableEq, Repr

section Tracking

variable {V : Type} [ArrowKernels V]

instance : ArrowKernels (Sourced V) where
  ofText cells text :=
    ⟨ArrowKernels.ofText (cells.map (·.value)) text, cells.flatMap (·.origins)⟩
  ofF64 cells x := ⟨ArrowKernels.ofF64 (cells.map (·.value)) x,
    cells.flatMap (·.origins)⟩
  display v := ArrowKernels.display v.value
  debug dataType cell := ArrowKernels.debug dataType (cell.map (·.value))
  canCast := ArrowKernels.canCast V
  castValue source target v :=
    (ArrowKernels.castValue source target v.value).map (⟨·, v.origins⟩)
  lexsort options keys := ArrowKernels.lexsort options
    (keys.map (List.map (Option.map (·.value))))
  errorText := ArrowKernels.errorText V

variable (G : Str → Origin → Prop)

def RowTracked (schema : Schema) (row : Row (Sourced V)) : Prop :=
  ∀ (i : Nat) (field : Field) (v : Sourced V), schema[i]? = some field →
    row[i]? = some (some v) → ∀ o ∈ v.origins, G field.name o

def TrackedAs (schema : Schema) (batches : List (RecordBatch (Sourced V))) :
    Prop :=
  ∀ b ∈ batches, b.schema = schema ∧ ∀ row ∈ b.rows, RowTracked G schema row

def AllTracked (batches : List (RecordBatch (Sourced V))) : Prop :=
  ∃ schema, TrackedAs G schema batches

variable {G}

omit [ArrowKernels V] in
theorem AllTracked.nil : AllTracked G ([] : List (RecordBatch (Sourced V))) :=
  ⟨[], by simp [TrackedAs]⟩

variable {schema : Schema} {batches : List (RecordBatch (Sourced V))}
  {row : Row (Sourced V)}
  {env : Env (Sourced V)} {fed : FederatedResult (Sourced V)}
    {columns : Columns}
  {refs : List TableRef} {s : ExecState (Sourced V)}

omit [ArrowKernels V] in
theorem trackedAs_singleton {b : RecordBatch (Sourced V)} :
    TrackedAs G schema [b] ↔ b.schema = schema ∧ ∀ row ∈ b.rows,
    RowTracked G schema row :=
  forall_mem_singleton

omit [ArrowKernels V] in
theorem TrackedAs.of_rows {batches batches' : List (RecordBatch (Sourced V))}
    (h : TrackedAs G schema batches) (hrows : ∀ b ∈ batches',
      b.schema = schema ∧ ∀ row ∈ b.rows,
      ∃ b' ∈ batches, row ∈ b'.rows) : TrackedAs G schema batches' := by
  intro b hb
  obtain ⟨hschema, hfrom⟩ := hrows b hb
  refine ⟨hschema, fun row hrow => ?_⟩
  obtain ⟨b', hb', hrow'⟩ := hfrom row hrow
  exact (h b' hb').2 row hrow'

variable {first merged : RecordBatch (Sourced V)} {P : Str → Origin → Prop}
  {batches sorted : List (RecordBatch (Sourced V))}
    {rows : List (Row (Sourced V))}
  {g : Group (Sourced V)} {query : Str} {A : Str → Origin → Prop}
    {a b : JoinSide (Sourced V)}
  {joined : List (RecordBatch (Sourced V))} {range : Option RangeParams}

theorem TrackedAs.concat (h : TrackedAs G schema batches)
    (hfirst : first ∈ batches)
    (hmerged : RecordBatch.concatBatches first.schema batches = .ok merged) :
    merged.schema = schema ∧ ∀ row ∈ merged.rows, ∃ b ∈ batches,
    row ∈ b.rows := by
  obtain ⟨merged', hok, hschema, hrows⟩ :=
    concatBatches_same fun b hb => (h b hb).1
  rw [(h first hfirst).1, hok] at hmerged
  cases hmerged
  rw [hrows]
  exact ⟨hschema, fun row hrow => mem_flatMap.mp hrow⟩

theorem TrackedAs.rowsOf (h : TrackedAs G schema batches)
    (hfirst : first ∈ batches)
    (hmerged : RecordBatch.concatBatches first.schema batches = .ok merged) :
    ∀ row ∈ merged.rows, row.length = first.schema.length ∧
    RowTracked G first.schema row := by
  intro row hrow
  obtain ⟨b, hb, hrow⟩ := (h.concat hfirst hmerged).2 row hrow
  have hsame : b.schema = first.schema :=
    (h b hb).1.trans (h first hfirst).1.symm
  refine ⟨hsame ▸ RecordBatch.length_of_mem hrow, ?_⟩
  rw [(h first hfirst).1]
  exact (h b hb).2 row hrow

omit [ArrowKernels V] in
theorem RowTracked.mono (h : RowTracked P schema row)
    (hP : ∀ n o, P n o → G n o) : RowTracked G schema row :=
  fun i field v hfield hv o ho => hP _ o (h i field v hfield hv o ho)

theorem sortRows_rows {batch sorted : RecordBatch (Sourced V)}
    {columns : List Nat} {options : List SortOptions} {limit : Option Nat}
    (h : sortRows batch columns options limit = .ok sorted) :
    sorted.schema = batch.schema ∧ ∀ row ∈ sorted.rows, row ∈ batch.rows := by
  unfold sortRows at h
  dsimp only at h
  split at h
  · cases h
  cases h
  refine ⟨rfl, fun row hrow => ?_⟩
  obtain ⟨i, -, hi⟩ := mem_filterMap.mp hrow
  exact mem_of_getElem? hi

theorem sortBatches_tracked {columns : List Nat} {descending : List Bool}
    (h : TrackedAs G schema batches)
    (hsorted : sortBatches batches columns descending none = .ok sorted) :
    TrackedAs G schema sorted := by
  unfold sortBatches at hsorted
  split at hsorted
  · cases hsorted
    simp [TrackedAs]
  rename_i first rest
  split at hsorted
  · unfold mergeBatches at hsorted
    dsimp only at hsorted
    obtain ⟨merged, hmerged, hsorted⟩ := bind_eq_ok.mp hsorted
    cases hsorted
    refine h.of_rows (forall_mem_singleton.mpr ?_)
    exact h.concat mem_cons_self hmerged
  · obtain ⟨merged, hmerged, hsorted⟩ := bind_eq_ok.mp hsorted
    dsimp only at hsorted
    split at hsorted
    · cases hsorted
    obtain ⟨one, hone, hsorted⟩ := bind_eq_ok.mp hsorted
    cases hsorted
    obtain ⟨hschema, hrows⟩ := h.concat mem_cons_self hmerged
    obtain ⟨hsame, hfrom⟩ := sortRows_rows hone
    refine h.of_rows (forall_mem_singleton.mpr ?_)
    exact ⟨hsame.trans hschema, fun row hrow =>
      hrows row (hfrom row hrow)⟩

theorem dedupBatches_tracked {columns : List Str}
    {batches kept : List (RecordBatch (Sourced V))}
    (h : TrackedAs G schema batches)
    (hkept : dedupBatches batches columns = .ok kept) :
    TrackedAs G schema kept := by
  unfold dedupBatches at hkept
  split at hkept
  · cases hkept
    simp [TrackedAs]
  rename_i first rest
  split at hkept
  · cases hkept
    exact h
  obtain ⟨merged, hmerged, hkept⟩ := bind_eq_ok.mp hkept
  obtain ⟨indices, -, hkept⟩ := bind_eq_ok.mp hkept
  obtain ⟨sorted, hsorted, hkept⟩ := bind_eq_ok.mp hkept
  cases hkept
  obtain ⟨hschema, hrows⟩ := h.concat mem_cons_self hmerged
  obtain ⟨hsame, hfrom⟩ := sortRows_rows hsorted
  refine h.of_rows (forall_mem_singleton.mpr ?_)
  exact ⟨hsame.trans hschema, fun row hrow =>
    hrows row (hfrom row (dropRepeats_subset _ _ _ hrow))⟩

theorem orElse_cases {α : Type} {x : Fallible α} {fallback a : α}
    (h : Fallible.orElse x fallback = .ok a) : x = .ok a ∨ a = fallback := by
  rcases x with (_ | _) | b
  · cases h
  · cases h
    exact .inr rfl
  · exact .inl h

theorem applyOrderBy_tracked {orderBy : List OrderKey}
    (h : AllTracked G batches)
    (hsorted : applyOrderBy orderBy batches = .ok sorted) :
    AllTracked G sorted := by
  unfold applyOrderBy at hsorted
  split at hsorted
  · cases hsorted
    exact AllTracked.nil
  obtain ⟨schema, htracked⟩ := h
  split at hsorted
  · cases hsorted
    exact ⟨schema, htracked⟩
  · rcases orElse_cases hsorted with hsort | rfl
    · exact ⟨schema, sortBatches_tracked htracked hsort⟩
    · exact AllTracked.nil

theorem applyDistinct_tracked {isDistinct : Bool}
    {batches kept : List (RecordBatch (Sourced V))}
    (h : AllTracked G batches) (hkept : applyDistinct isDistinct batches =
      .ok kept) :
    AllTracked G kept := by
  unfold applyDistinct at hkept
  split at hkept
  · cases hkept
    exact AllTracked.nil
  obtain ⟨schema, htracked⟩ := h
  split at hkept
  · rcases orElse_cases hkept with hdedup | rfl
    · exact ⟨schema, dedupBatches_tracked htracked hdedup⟩
    · exact AllTracked.nil
  · cases hkept
    exact ⟨schema, htracked⟩

omit [ArrowKernels V] in
theorem filterRows_tracked
    (keep : RecordBatch (Sourced V) → Option (Row (Sourced V) → Bool))
    (h : TrackedAs G schema batches) :
    TrackedAs G schema (batches.filterMap fun b =>
      (keep b).map fun p => b.filterRows p) := by
  refine h.of_rows fun b hb => ?_
  obtain ⟨before, hbefore, heq⟩ := mem_filterMap.mp hb
  obtain ⟨p, -, rfl⟩ := Option.map_eq_some_iff.mp heq
  exact ⟨(h before hbefore).1, fun row hrow =>
    ⟨before, hbefore, mem_of_mem_filter hrow⟩⟩

theorem applyHavingFilter_tracked [FloatOps] [Unicode]
    {having : HavingCondition} (h : AllTracked G batches) :
    AllTracked G (applyHavingFilter having batches) := by
  obtain ⟨schema, htracked⟩ := h
  refine ⟨schema, ?_⟩
  have := filterRows_tracked (fun b =>
    (b.schema.findIdx? fun f =>
      toLowercase f.name = toLowercase having.column).map
      fun i row => havingKeeps having row[i]?.join) htracked
  simpa [applyHavingFilter, Option.map_map, Function.comp_def] using this

omit [ArrowKernels V] in
theorem RowTracked.take (h : RowTracked G schema row) (n : Nat) :
    RowTracked G schema (row.take n) := by
  intro i field v hfield hv o ho
  rw [getElem?_take] at hv
  split at hv
  · exact h i field v hfield hv o ho
  · cases hv

theorem rebuild_tracked {rows : List (List DataType × Row (Sourced V))}
    (h : ∀ r ∈ rows, RowTracked G schema r.2) :
    TrackedAs G schema (rebuild schema rows) := by
  unfold rebuild
  dsimp only
  split
  · split
    · rename_i batch hbatch
      obtain ⟨hschema, hrows, -⟩ := RecordBatch.tryNew_parts hbatch
      refine trackedAs_singleton.mpr ⟨hschema, fun row hrow => ?_⟩
      rw [hrows] at hrow
      obtain ⟨r, hr, rfl⟩ := mem_map.mp hrow
      exact (h r hr).take _
    · simp [TrackedAs]
  · simp [TrackedAs]

theorem takeWindow_tracked {skip : Nat} {count : Option Nat}
    {batches window : List (RecordBatch (Sourced V))} (h : AllTracked G batches)
    (hwindow : takeWindow skip count batches = .ok window) :
    AllTracked G window := by
  obtain ⟨schema, htracked⟩ := h
  unfold takeWindow at hwindow
  split at hwindow
  · cases hwindow
    exact ⟨schema, htracked⟩
  dsimp only at hwindow
  split at hwindow
  · cases hwindow
    exact AllTracked.nil
  rename_i first rest
  split at hwindow
  · cases hwindow
    exact AllTracked.nil
  split at hwindow
  · cases hwindow
  cases hwindow
  rw [(htracked first mem_cons_self).1]
  refine ⟨schema, rebuild_tracked fun r hr => ?_⟩
  have hr := mem_of_mem_drop (mem_of_mem_take hr)
  obtain ⟨b, hb, hr⟩ := mem_flatMap.mp hr
  obtain ⟨row, hrow, rfl⟩ := mem_map.mp hr
  exact (htracked b hb).2 row hrow

omit [ArrowKernels V] in
theorem RowTracked.append {left right : Schema} {row row' : Row (Sourced V)}
    (hlength : row.length = left.length) (hrow : RowTracked G left row)
    (hrow' : RowTracked G right row') :
    RowTracked G (left ++ right) (row ++ row') := by
  intro i field v hfield hv
  by_cases hi : i < left.length
  · rw [getElem?_append_left hi] at hfield
    rw [getElem?_append_left (by omega)] at hv
    exact hrow i field v hfield hv
  · rw [getElem?_append_right (by omega)] at hfield
    rw [getElem?_append_right (by omega), hlength] at hv
    exact hrow' _ field v hfield hv

theorem groupRows_rows (columns : List Nat) (rows : List (Row (Sourced V))) :
    ∀ g ∈ groupRows columns rows, g.key.length = columns.length ∧
    ∀ row ∈ g.rows, row ∈ rows := by
  intro g hg
  have hgroups := groupRows_groups columns rows
  obtain ⟨first, -, hkey⟩ :=
    mem_map.mp ((hgroups.keys g.key).mp (mem_map_of_mem hg))
  refine ⟨by simp [← hkey, keyTexts], fun row hrow => ?_⟩
  rw [hgroups.rows g hg] at hrow
  exact mem_of_mem_filter hrow

omit [ArrowKernels V] in
theorem renamed_tracked {dataType : DataType} {columns : List Nat}
    (hg : ∀ row ∈ g.rows, row.length = schema.length ∧ RowTracked G schema row)
    (hrow : ∀ (j : Nat) (v : Sourced V), row[j]? = some (some v) → ∃ i,
      columns[j]? = some i ∧ v.origins = (g.cells i).flatMap (·.origins)) :
    RowTracked G (columns.map (renamedField schema dataType)) row := by
  intro j field v hfield hv o ho
  obtain ⟨i, hi, horigins⟩ := hrow j v hv
  rw [getElem?_map, hi, Option.map_some, Option.some.injEq] at hfield
  rw [horigins] at ho
  obtain ⟨w, hw, ho⟩ := mem_flatMap.mp ho
  obtain ⟨source, hsource, hcell⟩ := mem_filterMap.mp hw
  obtain ⟨hlength, htracked⟩ := hg source hsource
  have hcell : source[i]? = some (some w) := Option.join_eq_some_iff.mp hcell
  have hbound : i < schema.length :=
    hlength ▸ (List.getElem?_eq_some_iff.mp hcell).1
  have hget : schema[i]? = some schema[i] := List.getElem?_eq_getElem hbound
  have hname : field.name = schema[i].name := by
    rw [← hfield]
    simp [renamedField, hget]
  rw [hname]
  exact htracked i _ w hget hcell o ho

theorem groupRow_tracked [FloatOps] {groupColumns aggColumns : List Nat}
    (hkey : g.key.length = groupColumns.length)
    (hg : ∀ row ∈ g.rows, row.length = schema.length ∧
      RowTracked G schema row) :
    RowTracked G (groupColumns.map (renamedField schema .utf8) ++
        aggColumns.map (renamedField schema .float64))
      (groupRow groupColumns aggColumns g) := by
  refine RowTracked.append (by simp [hkey]) (renamed_tracked hg ?_)
    (renamed_tracked hg ?_)
  · intro j v hv
    rw [getElem?_map] at hv
    obtain ⟨⟨i, text⟩, hpair, hv⟩ := Option.map_eq_some_iff.mp hv
    cases hv
    refine ⟨i, ?_, rfl⟩
    exact (getElem?_zip_eq_some.mp hpair).1
  · intro j v hv
    rw [getElem?_map] at hv
    obtain ⟨i, hi, hv⟩ := Option.map_eq_some_iff.mp hv
    cases hv
    exact ⟨i, hi, rfl⟩

theorem reaggregateBatches_tracked [FloatOps] {groupCols : List Str}
    {batches grouped : List (RecordBatch (Sourced V))}
    (h : AllTracked G batches)
    (hgrouped : reaggregateBatches env batches groupCols = .ok grouped) :
    AllTracked G grouped := by
  unfold reaggregateBatches at hgrouped
  split at hgrouped
  · cases hgrouped
    exact AllTracked.nil
  rename_i first rest
  obtain ⟨schema, htracked⟩ := h
  have hfirst := (htracked first mem_cons_self).1
  dsimp only at hgrouped
  split at hgrouped
  · cases hgrouped
    exact ⟨schema, htracked⟩
  split at hgrouped
  · cases hgrouped
  rcases orElse_cases hgrouped with hnew | rfl
  · obtain ⟨batch, hbatch, rfl⟩ := map_eq_ok.mp hnew
    obtain ⟨hschema, hrows, -⟩ := RecordBatch.tryNew_parts hbatch
    refine ⟨batch.schema, trackedAs_singleton.mpr ⟨rfl, fun row hrow => ?_⟩⟩
    rw [hrows] at hrow
    rw [hschema]
    obtain ⟨g, hg, rfl⟩ := mem_map.mp hrow
    obtain ⟨key, -, hfound⟩ := mem_filterMap.mp hg
    obtain ⟨hkey, hfrom⟩ := groupRows_rows _ _ g (mem_of_find?_eq_some hfound)
    refine groupRow_tracked hkey fun row hrow => ?_
    obtain ⟨b, hb, hrow⟩ := mem_flatMap.mp (hfrom row hrow)
    obtain ⟨hsame, hall⟩ := htracked b hb
    rw [hfirst]
    exact ⟨hsame ▸ RecordBatch.length_of_mem hrow, hall row hrow⟩
  · exact ⟨schema, htracked⟩

theorem mergedResult_tracked [Unicode] [FloatOps]
    {merged : List (RecordBatch (Sourced V))} (h : AllTracked G fed.batches)
    (hmerged : mergedResult env query fed = .ok merged) :
    AllTracked G merged := by
  obtain ⟨groupBy, -, hmerged⟩ := bind_eq_ok.mp hmerged
  dsimp only at hmerged
  split at hmerged
  · obtain ⟨grouped, hgrouped, hmerged⟩ := bind_eq_ok.mp hmerged
    obtain ⟨having, -, hmerged⟩ := bind_eq_ok.mp hmerged
    have htracked := reaggregateBatches_tracked h hgrouped
    cases hmerged
    cases having
    · exact htracked
    · exact applyHavingFilter_tracked htracked
  · obtain ⟨grouped, hgrouped, hmerged⟩ := bind_eq_ok.mp hmerged
    obtain ⟨having, -, hmerged⟩ := bind_eq_ok.mp hmerged
    cases hgrouped
    cases hmerged
    cases having
    · exact h
    · exact applyHavingFilter_tracked h

theorem shapeResult_tracked [Unicode] [FloatOps] {clauses : PlanClauses}
    {shaped : List (RecordBatch (Sourced V))} (h : AllTracked G fed.batches)
    (hshaped : shapeResult env query clauses fed = .ok shaped) :
    AllTracked G shaped := by
  unfold shapeResult at hshaped
  obtain ⟨merged, hmerged, hshaped⟩ := bind_eq_ok.mp hshaped
  obtain ⟨sorted, hsorted, hshaped⟩ := bind_eq_ok.mp hshaped
  exact applyDistinct_tracked
    (applyOrderBy_tracked (mergedResult_tracked h hmerged) hsorted) hshaped

theorem tagBatch_tracked {batch : RecordBatch (Sourced V)} {ds : Str}
    (h : ∀ row ∈ batch.rows, RowTracked G batch.schema row) :
    ∀ row ∈ (tagBatch ds batch).rows,
    RowTracked G (tagBatch ds batch).schema row := by
  intro row hrow
  obtain ⟨untagged, huntagged, rfl⟩ := mem_map.mp hrow
  refine RowTracked.append (RecordBatch.length_of_mem huntagged)
    (h untagged huntagged) ?_
  -- the name of the source comes from no field
  intro i field v hfield hv o ho
  rw [getElem?_singleton] at hv
  split at hv
  · cases hv
    cases ho
  · cases hv

theorem alignCell_origins {field : Field} {v : Sourced V}
    (h : alignCell schema row field = some v) :
    ∃ (i : Nat) (source : Field) (w : Sourced V),
      schema[i]? = some source ∧ source.name = field.name ∧
        row[i]? = some (some w) ∧ v.origins = w.origins := by
  unfold alignCell at h
  split at h
  · cases h
  rename_i i hi
  split at h
  · rename_i w source hw hsource
    refine ⟨i, source, w, hsource, ?_, Option.join_eq_some_iff.mp hw, ?_⟩
    · obtain ⟨hbound, hname, -⟩ := findIdx?_eq_some_iff_getElem.mp hi
      rw [getElem?_eq_getElem hbound] at hsource
      cases hsource
      simpa using hname
    · split at h
      · cases h
        rfl
      · obtain ⟨cast, -, rfl⟩ := Option.map_eq_some_iff.mp h
        rfl
  · cases h

private theorem alignBatch_tracked {batch aligned : RecordBatch (Sourced V)}
    {target : Schema} (h : ∀ row ∈ batch.rows, RowTracked G batch.schema row)
    (haligned : alignBatch batch target = .ok aligned) :
    aligned.schema = target ∧ ∀ row ∈ aligned.rows,
    RowTracked G target row := by
  unfold alignBatch at haligned
  split at haligned
  · obtain ⟨hschema, hrows, -⟩ := RecordBatch.tryNew_parts haligned
    refine ⟨hschema, fun row hrow => ?_⟩
    rw [hrows] at hrow
    obtain ⟨before, hbefore, rfl⟩ := mem_map.mp hrow
    intro j field v hfield hv o ho
    rw [getElem?_map, hfield, Option.map_some, Option.some.injEq] at hv
    obtain ⟨i, source, w, hsource, hname, hw, horigins⟩ := alignCell_origins hv
    rw [horigins] at ho
    exact hname ▸ h before hbefore i source w hsource hw o ho
  · cases haligned

theorem unionBatches_tracked {sets : List (List (RecordBatch (Sourced V)))}
    (h : ∀ set ∈ sets, ∀ b ∈ set, ∀ row ∈ b.rows, RowTracked G b.schema row)
    (hunion : unionBatches sets = .ok batches) : AllTracked G batches := by
  have hall : ∀ b ∈ sets.flatten, ∀ row ∈ b.rows,
      RowTracked G b.schema row := by
    intro b hb
    obtain ⟨set, hset, hb⟩ := mem_flatten.mp hb
    exact h set hset b hb
  unfold unionBatches at hunion
  dsimp only at hunion
  split at hunion
  · rename_i hsame
    cases hunion
    cases hflat : sets.flatten with
    | nil => exact AllTracked.nil
    | cons first rest =>
      rw [hflat, map_cons] at hsame
      rw [hflat] at hall
      refine ⟨first.schema, fun b hb => ?_⟩
      have hschema : b.schema = first.schema := by
        rcases mem_cons.mp hb with rfl | hb
        · rfl
        · exact allSame_eq hsame _ (mem_map_of_mem hb)
      exact ⟨hschema, hschema ▸ hall b hb⟩
  · refine ⟨unionSchema (sets.flatten.map (·.schema)), fun b hb => ?_⟩
    obtain ⟨before, hbefore, haligned⟩ := mem_of_mapM_ok hunion b hb
    exact alignBatch_tracked (hall before hbefore) haligned

omit [ArrowKernels V] in
theorem rowAt_tracked
    (h : ∀ row ∈ rows, row.length = schema.length ∧ RowTracked G schema row)
    (i : Option Nat) : (rowAt rows schema.length i).length = schema.length ∧
      RowTracked G schema (rowAt rows schema.length i) := by
  have hnull : RowTracked G schema
      (List.replicate schema.length (none : Option (Sourced V))) := by
    intro j field v _ hv
    rw [getElem?_replicate] at hv
    split at hv <;> cases hv
  cases i with
  | none => exact ⟨length_replicate, hnull⟩
  | some i =>
    cases hrow : rows[i]? with
    | none =>
      simp only [rowAt, hrow, Option.getD_none]
      exact ⟨length_replicate, hnull⟩
    | some row =>
      simp only [rowAt, hrow, Option.getD_some]
      exact h row (mem_of_getElem? hrow)

omit [ArrowKernels V] in
theorem RowTracked.eraseIdx (h : RowTracked G schema row) (k : Nat) :
    RowTracked G (schema.eraseIdx k) (row.eraseIdx k) := by
  intro i field v hfield hv
  rw [getElem?_eraseIdx] at hfield hv
  split at hfield
  · rename_i hik
    rw [if_pos hik] at hv
    exact h i field v hfield hv
  · rename_i hik
    rw [if_neg hik] at hv
    exact h (i + 1) field v hfield hv

omit [ArrowKernels V] in
theorem RowTracked.renamed {build probe : Schema} (h : RowTracked P probe row)
    (hkeep : ∀ n o, P n o → G n o) (hrename : ∀ n o, P n o →
      G ("probe_" ++ n) o) :
    RowTracked G (probe.map fun f =>
      { name := probeName build f.name, dataType := f.dataType,
        nullable := true }) row := by
  intro i field v hfield hv o ho
  rw [getElem?_map] at hfield
  obtain ⟨source, hsource, rfl⟩ := Option.map_eq_some_iff.mp hfield
  have hold := h i source v hsource hv o ho
  simp only [probeName]
  split
  · exact hrename _ o hold
  · exact hkeep _ o hold

theorem joinSides_tracked {B P : Str → Origin → Prop}
    {build probe joined : List (RecordBatch (Sourced V))}
    {buildKey probeKey : Str}
    (hbuild : AllTracked B build) (hprobe : AllTracked P probe)
    (hB : ∀ n o, B n o → G n o)
    (hP : ∀ n o, P n o → G n o) (hrename : ∀ n o, P n o → G ("probe_" ++ n) o)
    (h : joinSides build buildKey probe probeKey .inner = .ok joined) :
    AllTracked G joined := by
  unfold joinSides at h
  split at h
  · cases h
    exact AllTracked.nil
  · cases h
    exact AllTracked.nil
  · rename_i b bs p ps
    obtain ⟨schemaB, hbuild⟩ := hbuild
    obtain ⟨schemaP, hprobe⟩ := hprobe
    obtain ⟨buildMerged, hbuildMerged, h⟩ := bind_eq_ok.mp h
    obtain ⟨probeMerged, hprobeMerged, h⟩ := bind_eq_ok.mp h
    obtain ⟨buildIdx, -, h⟩ := bind_eq_ok.mp h
    obtain ⟨probeIdx, hprobeIdx, h⟩ := bind_eq_ok.mp h
    dsimp only at h
    rw [if_neg (by simp)] at h
    split at h
    · cases h
    obtain ⟨one, hone, h⟩ := bind_eq_ok.mp h
    cases h
    obtain ⟨hschema, hrows, -, htypes⟩ := RecordBatch.tryNew_parts hone
    rw [mergeSchemas_inner] at hschema htypes
    replace htypes := congrArg length htypes
    have hfilter : p.schema.filter (·.name ≠ probeKey) =
        p.schema.eraseIdx probeIdx := by
      refine filter_eq_eraseIdx (keyIndex_ok hprobeIdx) ?_
      simp only [skipColumn, Schema.types, length_append, length_map,
        length_eraseIdx] at htypes ⊢
      omega
    rw [hfilter] at hschema
    have hbuildRows := hbuild.rowsOf mem_cons_self hbuildMerged
    have hprobeRows := hprobe.rowsOf mem_cons_self hprobeMerged
    refine ⟨one.schema, trackedAs_singleton.mpr ⟨rfl, fun row hrow => ?_⟩⟩
    rw [hrows] at hrow
    obtain ⟨⟨i, j⟩, -, rfl⟩ := mem_map.mp hrow
    rw [hschema]
    obtain ⟨hlength, hleft⟩ := rowAt_tracked hbuildRows i
    obtain ⟨-, hright⟩ := rowAt_tracked hprobeRows j
    refine RowTracked.append hlength (hleft.mono hB) ?_
    exact (hright.eraseIdx probeIdx).renamed hP hrename

theorem addDatasourceColumn_tracked (h : AllTracked G batches) (ds : Str) :
    AllTracked G (addDatasourceColumn batches ds) := by
  obtain ⟨schema, htracked⟩ := h
  refine ⟨schema ++ [datasourceField], fun b hb => ?_⟩
  rw [addDatasourceColumn_eq] at hb
  obtain ⟨untagged, huntagged, rfl⟩ := mem_map.mp hb
  obtain ⟨hschema, hrows⟩ := htracked untagged huntagged
  rw [← hschema] at hrows
  rw [← hschema]
  exact ⟨rfl, tagBatch_tracked hrows⟩

theorem joinTagged_tracked {keyA keyB : Str} (ha : AllTracked A a.batches)
    (hb : AllTracked A b.batches) (hkeep : ∀ n o, A n o → G n o)
    (hrename : ∀ n o, A n o → G ("probe_" ++ n) o)
    (h : joinTagged a b keyA keyB = .ok joined) : AllTracked G joined := by
  have htaggedA := addDatasourceColumn_tracked ha a.datasource
  have htaggedB := addDatasourceColumn_tracked hb b.datasource
  unfold joinTagged at h
  dsimp only at h
  split at h
  · exact joinSides_tracked htaggedA htaggedB hkeep hkeep hrename h
  · exact joinSides_tracked htaggedB htaggedA hkeep hkeep hrename h

theorem filterTimeWindow_tracked [FloatOps] {window : TimeWindow}
    (h : AllTracked G batches) :
    AllTracked G (filterTimeWindow window batches) := by
  obtain ⟨schema, htracked⟩ := h
  refine ⟨schema, htracked.of_rows fun b hb => ?_⟩
  obtain ⟨before, hbefore, heq⟩ := mem_filterMap.mp hb
  obtain ⟨i, -, heq⟩ := Option.bind_eq_some_iff.mp heq
  obtain ⟨j, -, heq⟩ := Option.bind_eq_some_iff.mp heq
  cases heq
  exact ⟨(htracked before hbefore).1, fun row hrow =>
    ⟨before, hbefore, mem_of_mem_filter hrow⟩⟩

theorem joinAnswers_tracked [Unicode] [FloatOps] (ha : AllTracked A a.batches)
    (hb : AllTracked A b.batches) (hkeep : ∀ n o, A n o → G n o)
    (hrename : ∀ n o, A n o → G ("probe_" ++ n) o)
    (h : joinAnswers query a b = .ok joined) : AllTracked G joined := by
  unfold joinAnswers at h
  split at h
  · cases h
    exact AllTracked.nil
  · cases h
    exact AllTracked.nil
  · obtain ⟨keys, -, h⟩ := bind_eq_ok.mp h
    dsimp only at h
    split at h
    · cases h
    obtain ⟨tagged, htagged, h⟩ := bind_eq_ok.mp h
    have htracked := joinTagged_tracked ha hb hkeep hrename htagged
    cases h
    split
    · exact filterTimeWindow_tracked htracked
    · exact htracked

abbrev Columns := TableRef → Str → Str → Prop

def heldBy (columns : Columns) (refs : List TableRef) (n : Str) (o : Origin) :
    Prop :=
  ⟨o.datasource, o.table⟩ ∈ refs ∧ columns ⟨o.datasource, o.table⟩ n o.field

/-- Every source answers with batches of one schema, whose cells come from its
own table, and from the fields their columns may hold. -/
def Env.Reads (env : Env (Sourced V)) (columns : Columns) : Prop :=
  ∀ number ds sq batches, env.execute number ds sq = .ok batches →
    AllTracked (fun n o => o.datasource = ds ∧ o.table = sq.table ∧
      columns ⟨ds, sq.table⟩ n o.field) batches

omit [ArrowKernels V] in
theorem AllTracked.mono (h : AllTracked P batches) (hP : ∀ n o, P n o → G n o) :
    AllTracked G batches := by
  obtain ⟨schema, htracked⟩ := h
  exact ⟨schema, fun b hb => ⟨(htracked b hb).1, fun row hrow =>
    ((htracked b hb).2 row hrow).mono hP⟩⟩

omit [ArrowKernels V] in
theorem Env.Reads.tracked (h : env.Reads columns) {ref : TableRef}
    (href : ref ∈ refs)
    {number : Nat} {sq : SubQuery} (htable : sq.table = ref.table)
    (hanswer : env.execute number ref.datasource sq = .ok batches) :
    AllTracked (heldBy columns refs) batches := by
  refine (h number ref.datasource sq batches hanswer).mono ?_
  rintro n o ⟨hds, ho, hcolumn⟩
  rw [htable] at ho hcolumn
  unfold heldBy
  rw [hds, ho]
  exact ⟨href, hcolumn⟩

variable [Unicode] [FloatOps] [SqlParser]

omit [ArrowKernels V] [Unicode] [FloatOps] [SqlParser] in
theorem timedAnswer_ok {env : Env V} {number : Nat} {ds : Str}
    {sq : SubQuery} {batches : List (RecordBatch V)}
    (h : timedAnswer env number ds .external sq = some (.ok batches)) :
    env.execute number ds sq = .ok batches := by
  unfold timedAnswer at h
  dsimp only at h
  split at h
  · cases h
  · exact Option.some.inj h

omit [ArrowKernels V] in
theorem executeSingle_tracked {ref : TableRef} {query format : Str}
    (hreads : env.Reads columns)
    (href : ref ∈ refs) (hexternal : s.External refs)
    (h : (executeSingle env query format ref range s).result = .ok fed) :
    AllTracked (heldBy columns refs) fed.batches ∧
    fed.datasources = [ref.datasource] := by
  rw [executeSingle_result env query format range s (hexternal ref href)] at h
  obtain ⟨built, hbuilt, h⟩ := bind_eq_ok.mp h
  have htable : (singleSubQuery range built).table = ref.table := by
    obtain ⟨sql, -, hbuilt⟩ := bind_eq_ok.mp hbuilt
    split at hbuilt <;> cases hbuilt <;> rfl
  split at h
  · cases h
  split at h
  · cases h
  rename_i batches hanswer
  cases h
  have hexecute : env.execute s.calls ref.datasource
      (singleSubQuery range built) = .ok batches := hanswer
  exact ⟨hreads.tracked href htable hexecute, rfl⟩

omit [SqlParser] in
theorem executeJoin_tracked (hreads : env.Reads columns)
    (hexternal : s.External refs)
    (hkeep : ∀ n o, heldBy columns refs n o → G n o)
    (hrename : refs.length = 2 → ∀ n o, heldBy columns refs n o →
      G ("probe_" ++ n) o)
    (h : (executeJoin env query refs s).result = .ok fed) :
    AllTracked G fed.batches ∧ fed.datasources = refs.map (·.datasource) := by
  obtain ⟨a, b, connA, connB, batchesA, batchesB, rfl, hA, hB, hreplyA,
    hreplyB, hsources, hjoined⟩ := executeJoin_ok hexternal.registered h
  have ha : a ∈ [a, b] := by simp
  have hb : b ∈ [a, b] := by simp
  rw [hexternal a ha] at hA
  rw [hexternal b hb] at hB
  cases hA
  cases hB
  have hsideA : AllTracked (heldBy columns [a, b]) batchesA :=
    hreads.tracked ha rfl (timedAnswer_ok hreplyA)
  have hsideB : AllTracked (heldBy columns [a, b]) batchesB :=
    hreads.tracked hb rfl (timedAnswer_ok hreplyB)
  exact ⟨joinAnswers_tracked hsideA hsideB hkeep (hrename rfl) hjoined,
    hsources⟩

omit [ArrowKernels V] [Unicode] [FloatOps] [SqlParser] in
theorem taskResults_execute {env : Env V} {base : SubQuery} {s : ExecState V}
    {result : TaskResult V} {batches : List (RecordBatch V)}
    (hexternal : s.External refs)
    (h : result ∈ taskResults env s.calls (unionTasks s.registry base refs))
    (hok : result.2 = .ok batches) : ∃ ref ∈ refs, ∃ number,
    env.execute number ref.datasource
      (sourceSubQuery base ref) = .ok batches := by
  obtain ⟨i, hi, rfl⟩ := mem_mapIdx.mp h
  simp only [unionTasks_external hexternal, length_map] at hi
  refine ⟨refs[i], getElem_mem hi, s.calls + i, ?_⟩
  simp only [unionTasks_external hexternal, getElem_map, taskResult,
    timedAnswer] at hok
  split at hok
  · cases hok
  split at hok
  · cases hok
  · exact hok

theorem executeUnion_tracked {query format : Str} (hreads : env.Reads columns)
    (hexternal : s.External refs)
    (h : (executeUnion env query format refs s).result = .ok fed) :
    AllTracked (heldBy columns refs) fed.batches ∧
    fed.datasources = refs.map (·.datasource) := by
  obtain ⟨base, hbase, -⟩ := Traced.bind_result_iff.mp h
  rw [executeUnion_result env s hbase] at h
  unfold collectUnion at h
  dsimp only at h
  split at h
  · cases h
  obtain ⟨batches, hbatches, h⟩ := bind_eq_ok.mp h
  cases h
  refine ⟨unionBatches_tracked (fun set hset => ?_) hbatches, ?_⟩
  · obtain ⟨⟨ds, reply⟩, hresult, hset⟩ := mem_filterMap.mp hset
    cases reply with
    | error e => cases hset
    | ok answered =>
      cases hset
      obtain ⟨ref, href, number, hexecute⟩ :=
        taskResults_execute hexternal hresult rfl
      obtain ⟨schema, htracked⟩ :=
        addDatasourceColumn_tracked (hreads.tracked href rfl hexecute) ds
      intro b hb
      obtain ⟨hschema, hrows⟩ := htracked b hb
      rw [hschema]
      exact hrows
  · rw [map_fst_taskResults, unionTasks_external hexternal, map_map]
    rfl

theorem executeRefs_tracked {query format : Str} (hreads : env.Reads columns)
    (hexternal : s.External refs) (hkeep : ∀ n o, heldBy columns refs n o →
      G n o)
    (hrename : refs.length = 2 → ∀ n o, heldBy columns refs n o →
      G ("probe_" ++ n) o)
    (h : (executeRefs env query format refs range s).result = .ok fed) :
    AllTracked G fed.batches ∧ fed.datasources = refs.map (·.datasource) := by
  unfold executeRefs at h
  split at h
  · rename_i ref
    obtain ⟨htracked, hsources⟩ :=
      executeSingle_tracked hreads (mem_singleton_self ref) hexternal h
    exact ⟨htracked.mono hkeep, hsources⟩
  split at h
  · obtain ⟨htracked, hsources⟩ := executeUnion_tracked hreads hexternal h
    exact ⟨htracked.mono hkeep, hsources⟩
  · exact executeJoin_tracked hreads hexternal hkeep hrename h

end Tracking

end Fuse.Server
