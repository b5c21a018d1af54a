import Fuse.Engine.Dedup
import Fuse.Server.Window

/-!
# `ORDER BY` together with `DISTINCT`

The endpoint sorts the merged rows by the keys of `ORDER BY`, removes repeated
rows and cuts the window.  The removal sorts again, by all columns from the
left and ascending, so the order that arrives at the window is that one; it is
the order of `ORDER BY` for all rows exactly if its keys lead the columns.
-/

namespace Fuse.Server

open Foundation Fuse.Core Engine List

section Columns

/-! ## The columns that are compared -/

def nameAt (schema : Schema) (i : Nat) : Str :=
  (schema[i]?.map (·.name)).getD []

def answerColumns (schema : Schema) : List Nat :=
  (List.range schema.length).filter fun i =>
    nameAt schema i ≠ datasourceField.name

def firstNamed (schema : Schema) (i : Nat) : Nat :=
  (schema.indexOf (nameAt schema i)).getD 0

theorem names_eq (schema : Schema) :
    schema.names = (List.range schema.length).map (nameAt schema) := by
  refine ext_getElem (by simp [Schema.names]) ?_
  intro i hi _
  have hi : i < schema.length := by simpa [Schema.names] using hi
  simp [Schema.names, nameAt, hi]

theorem answerNames_eq (schema : Schema) :
    schema.names.filter (· ≠ datasourceField.name) =
      (answerColumns schema).map (nameAt schema) := by
  rw [names_eq, filter_map]
  rfl

variable {schema : Schema}

theorem lt_of_mem_answerColumns {i : Nat} (h : i ∈ answerColumns schema) :
    i < schema.length :=
  mem_range.mp (mem_of_mem_filter h)

theorem ascending_bound : ∀ key ∈ KeyOrder.ascending (answerColumns schema),
      key.1 < schema.length := by
  intro key hkey
  obtain ⟨i, hi, rfl⟩ := mem_map.mp hkey
  exact lt_of_mem_answerColumns hi

theorem answerColumns_nodup (schema : Schema) : (answerColumns schema).Nodup :=
  nodup_range.filter _

theorem firstNamed_spec {i : Nat} (hi : i < schema.length) :
    schema.indexOf (nameAt schema i) = some (firstNamed schema i) ∧
    firstNamed schema i ≤ i ∧
      nameAt schema (firstNamed schema i) = nameAt schema i := by
  have hname : nameAt schema i = schema[i].name := by simp [nameAt, hi]
  cases h : schema.indexOf (nameAt schema i) with
  | none =>
    have hnone := findIdx?_eq_none_iff.mp h schema[i] (by simp)
    simp [hname] at hnone
  | some j =>
    have hj : firstNamed schema i = j := by simp [firstNamed, h]
    obtain ⟨hlt, hjname, hfirst⟩ := findIdx?_eq_some_iff_getElem.mp h
    rw [hj]
    refine ⟨rfl, ?_, ?_⟩
    · by_contra hle
      have := hfirst i (by omega)
      simp [hname] at this
    · rw [decide_eq_true_eq] at hjname
      simpa [nameAt, hlt] using hjname

theorem firstNamed_mem {i : Nat} (h : i ∈ answerColumns schema) :
    firstNamed schema i ∈ answerColumns schema := by
  obtain ⟨-, hle, hname⟩ := firstNamed_spec (lt_of_mem_answerColumns h)
  have hi := mem_filter.mp h
  refine mem_filter.mpr ⟨?_, by simpa [hname] using hi.2⟩
  rw [mem_range]
  exact hle.trans_lt (lt_of_mem_answerColumns h)

theorem resolveColumns_answer (schema : Schema) :
    resolveColumns schema (schema.names.filter (· ≠ datasourceField.name)) =
      .ok ((answerColumns schema).map (firstNamed schema)) := by
  have hstep : ∀ columns : List Nat, (∀ i ∈ columns, i < schema.length) →
      resolveColumns schema (columns.map (nameAt schema)) =
        .ok (columns.map (firstNamed schema)) := by
    intro columns
    induction columns with
    | nil => exact fun _ => rfl
    | cons i columns ih =>
      intro hbound
      have hi := (firstNamed_spec (hbound i (by simp))).1
      have hrest := ih fun j hj => hbound j (by simp [hj])
      simp only [resolveColumns] at hrest ⊢
      simp only [map_cons, mapM_cons, hi, bind, Except.bind, hrest, pure,
        Except.pure]
  rw [answerNames_eq]
  exact hstep _ fun i hi => lt_of_mem_answerColumns hi

theorem map_firstNamed
    (hnames : ((answerColumns schema).map (nameAt schema)).Nodup) :
    (answerColumns schema).map (firstNamed schema) = answerColumns schema := by
  refine (map_congr_left fun i hi => ?_).trans (map_id' _)
  exact inj_on_of_nodup_map hnames (firstNamed_mem hi) hi
    (firstNamed_spec (lt_of_mem_answerColumns hi)).2.2

theorem exists_not_firstNamed
    (hnames : ¬ ((answerColumns schema).map (nameAt schema)).Nodup) :
    ∃ j ∈ answerColumns schema, j ∉ (answerColumns schema).map
    (firstNamed schema) := by
  have hinj : ¬ ∀ i ∈ answerColumns schema, ∀ j ∈ answerColumns schema,
      nameAt schema i = nameAt schema j → i = j :=
    fun h => hnames ((nodup_map_iff_inj_on (answerColumns_nodup schema)).mpr h)
  push Not at hinj
  obtain ⟨i, hi, j, hj, hname, hne⟩ := hinj
  -- the later of the two
  obtain ⟨i, hi, j, hj, hname, hlt⟩ : ∃ i ∈ answerColumns schema,
    ∃ j ∈ answerColumns schema,
      nameAt schema i = nameAt schema j ∧ i < j := by
    rcases Nat.lt_or_gt_of_ne hne with hlt | hlt
    · exact ⟨i, hi, j, hj, hname, hlt⟩
    · exact ⟨j, hj, i, hi, hname.symm, hlt⟩
  refine ⟨j, hj, ?_⟩
  intro hmem
  obtain ⟨k, hk, rfl⟩ := mem_map.mp hmem
  obtain ⟨-, -, hkname⟩ := firstNamed_spec (lt_of_mem_answerColumns hk)
  have hle := (firstNamed_spec (lt_of_mem_answerColumns hi)).2.1
  have hsame : firstNamed schema i = firstNamed schema k := by
    unfold firstNamed
    rw [hname, hkname]
  omega

end Columns

section Pages

variable {V : Type} [ArrowKernels V]

/-! ## From the merged rows to the window -/

/-- The steps of the endpoint after grouping and `HAVING`. -/
def sortedWindow (clauses : PlanClauses) (page : PageRequest)
    (merged : List (RecordBatch V)) : Fallible (List (RecordBatch V)) := do
  let sorted ← applyOrderBy clauses.orderBy merged
  let distinct ← applyDistinct clauses.isDistinct sorted
  takeWindow (effectiveOffset clauses page)
    (effectivePageSize clauses page) distinct

variable [LinearOrder V]

def answerTuple (schema : Schema) (row : Row V) : Row V :=
  RecordBatch.keyOf (answerColumns schema) row

/-- `whole` has each distinct row of `merged` once, in the order of the keys. -/
structure DistinctInOrder (schema : Schema) (orderBy : List OrderKey)
    (merged whole : List (Row V)) : Prop where
  subset : whole ⊆ merged
  covers : ∀ row ∈ merged, ∃ r ∈ whole,
    answerTuple schema r = answerTuple schema row
  distinct : whole.Pairwise fun a b =>
    answerTuple schema a ≠ answerTuple schema b
  ordered : whole.Pairwise fun a b =>
    orderKey schema orderBy a ≤ orderKey schema orderBy b

def KeepsOrder (schema : Schema) (clauses : PlanClauses) (page : PageRequest)
    (merged : List (RecordBatch V)) : Prop :=
  ∃ window whole, sortedWindow clauses page merged = .ok window ∧
    DistinctInOrder schema clauses.orderBy (merged.flatMap (·.rows)) whole ∧
    window.flatMap (·.rows) = Windows.limited (effectivePageSize clauses page)
        (whole.drop (effectiveOffset clauses page))

/-- The keys of `ORDER BY` only ask for the order of the columns. -/
def KeysLead (schema : Schema) (orderBy : List OrderKey) : Prop :=
  answerColumns schema ≠ [] ∧
    ((answerColumns schema).map (nameAt schema)).Nodup ∧
    KeyOrder.Leads (answerColumns schema) (resolveOrder schema orderBy)

/-! ## What the removal of repeated rows does -/

variable {schema : Schema} {merged : List (RecordBatch V)}

variable {sorted : List (RecordBatch V)} {clauses : PlanClauses}
  {orderBy : List OrderKey}

omit [LinearOrder V] in
theorem applyDistinct_nil (hnil : answerColumns schema = [])
    (hschema : ∀ b ∈ sorted, b.schema = schema) :
    applyDistinct true sorted = .ok sorted := by
  cases sorted with
  | nil => rfl
  | cons first rest =>
    have hnames : first.schema.names.filter (· ≠ datasourceField.name) =
        [] := by
      rw [hschema first (by simp), answerNames_eq, hnil, map_nil]
    simp only [applyDistinct, if_true, hnames, dedupBatches]
    rfl

/-- One row is left for each tuple of the columns that names are resolved to,
in the order of these columns. -/
theorem applyDistinct_strict (hsort : LexsortSorts V) (hdebug : DebugFaithful V)
    (hcolumns : answerColumns schema ≠ [])
    (hschema : ∀ b ∈ sorted, b.schema = schema) :
    ∃ distinct, applyDistinct true sorted = .ok distinct ∧
    (∀ b ∈ distinct, b.schema = schema) ∧
      distinct.flatMap (·.rows) ⊆ sorted.flatMap (·.rows) ∧
      (∀ row ∈ sorted.flatMap (·.rows), ∃ r ∈ distinct.flatMap (·.rows),
        RecordBatch.keyOf ((answerColumns schema).map (firstNamed schema)) r =
          RecordBatch.keyOf ((answerColumns schema).map (firstNamed schema))
          row) ∧
      (distinct.flatMap (·.rows)).Pairwise fun a b =>
        columnsKey ((answerColumns schema).map (firstNamed schema)) a <
          columnsKey ((answerColumns schema).map (firstNamed schema)) b := by
  cases hsorted : sorted with
  | nil => exact ⟨[], rfl, by simp, by simp, by simp, by simp⟩
  | cons first rest =>
    rw [← hsorted]
    have hfirst : first.schema = schema := hschema first (by simp [hsorted])
    have hnames : schema.names.filter (· ≠ datasourceField.name) ≠ [] := by
      rw [answerNames_eq]
      simpa using hcolumns
    obtain ⟨distinct, hok, hdschema, hsubset, hcovers, hstrict⟩ :=
      dedupBatches_strict hsort hdebug
      (by simp [hsorted]) hschema hnames (resolveColumns_answer schema)
    refine ⟨[distinct], ?_, by simpa using hdschema, by simpa using hsubset,
      by simpa using hcovers, by simpa using hstrict⟩
    rw [hsorted] at hok ⊢
    simp only [applyDistinct, if_true, hfirst, hok]
    rfl

theorem sortedWindow_strict (hsort : LexsortSorts V) (hdebug : DebugFaithful V)
    (hcolumns : answerColumns schema ≠ [])
    (hschema : ∀ b ∈ merged, b.schema = schema)
    (hdistinct : clauses.isDistinct = true) (page : PageRequest) :
    ∃ window distinct, sortedWindow clauses page merged = .ok window ∧
      (∀ b ∈ window, b.schema = schema) ∧ window.flatMap (·.rows) =
        Windows.limited (effectivePageSize clauses page)
          (distinct.drop (effectiveOffset clauses page)) ∧
      distinct ⊆ merged.flatMap (·.rows) ∧
      (∀ row ∈ merged.flatMap (·.rows), ∃ r ∈ distinct,
        RecordBatch.keyOf ((answerColumns schema).map (firstNamed schema)) r =
          RecordBatch.keyOf ((answerColumns schema).map (firstNamed schema))
          row) ∧
      distinct.Pairwise fun a b =>
        columnsKey ((answerColumns schema).map (firstNamed schema)) a <
          columnsKey ((answerColumns schema).map (firstNamed schema)) b := by
  have hne : schema ≠ [] := by
    rintro rfl
    exact hcolumns rfl
  obtain ⟨sorted, hsorted, hsschema, hperm, -⟩ :=
    applyOrderBy_sorted hsort hschema clauses.orderBy
  obtain ⟨distinct, hok, hdschema, hsubset, hcovers, hstrict⟩ :=
    applyDistinct_strict hsort hdebug hcolumns hsschema
  obtain ⟨window, hwindow, hwschema, hrows⟩ := takeWindow_same hne hdschema
    (effectiveOffset clauses page) (effectivePageSize clauses page)
  refine ⟨window, _, ?_, hwschema, hrows, ?_, ?_, hstrict⟩
  · simp [sortedWindow, hsorted, hdistinct, hok, bind, Except.bind, hwindow]
  · exact List.Subset.trans hsubset hperm.subset
  · intro row hrow
    exact hcovers row (hperm.mem_iff.mpr hrow)

theorem keepsOrder_of_keysLead (hsort : LexsortSorts V)
    (hdebug : DebugFaithful V) (hlead : KeysLead schema clauses.orderBy)
    (hdistinct : clauses.isDistinct = true)
    (page : PageRequest) (hschema : ∀ b ∈ merged, b.schema = schema) :
    KeepsOrder schema clauses page merged := by
  obtain ⟨hcolumns, hnames, hleads⟩ := hlead
  obtain ⟨window, distinct, hwindow, -, hrows, hsubset, hcovers, hstrict⟩ :=
    sortedWindow_strict hsort hdebug hcolumns hschema hdistinct page
  rw [map_firstNamed hnames] at hcovers hstrict
  refine ⟨window, distinct, hwindow, ⟨hsubset, hcovers, ?_, ?_⟩, hrows⟩
  · refine hstrict.imp ?_
    intro a b hlt heq
    exact hlt.ne (columnsKey_eq_iff.mpr heq)
  · refine hstrict.imp ?_
    intro a b hlt
    have hdiffer : RecordBatch.keyOf (answerColumns schema) a ≠
        RecordBatch.keyOf (answerColumns schema) b :=
      fun heq => hlt.ne (columnsKey_eq_iff.mpr heq)
    exact (tupleKey_le_iff _ a b).mpr (KeyOrder.before_of_leads hleads
      (columnsKey_le_iff.mp hlt.le) (exists_cellAt_ne hdiffer))

/-! ## Results that lose the order -/

def wholeInOrder (orderBy : List OrderKey) : PlanClauses :=
  { orderBy, limit := none, isDistinct := true, offset := 0 }

theorem KeepsOrder.exists_whole (hsort : LexsortSorts V)
    (hdebug : DebugFaithful V) (hcolumns : answerColumns schema ≠ [])
    (hschema : ∀ b ∈ merged, b.schema = schema)
    (h : KeepsOrder schema (wholeInOrder orderBy) {} merged) :
    ∃ whole, DistinctInOrder schema orderBy (merged.flatMap (·.rows)) whole ∧
      whole.Pairwise fun a b =>
        columnsKey ((answerColumns schema).map (firstNamed schema)) a <
          columnsKey ((answerColumns schema).map (firstNamed schema)) b := by
  obtain ⟨window, whole, hwindow, hwhole, hrows⟩ := h
  obtain ⟨window', distinct, hwindow', -, hrows', -, -, hstrict⟩ :=
    sortedWindow_strict hsort hdebug hcolumns hschema
      (show (wholeInOrder orderBy).isDistinct = true from rfl) {}
  cases Except.ok.inj (hwindow.symm.trans hwindow')
  -- no row is skipped and none cut off
  have hsame : whole = distinct := hrows.symm.trans hrows'
  exact ⟨whole, hwhole, hsame ▸ hstrict⟩

theorem KeepsOrder.two_rows (hsort : LexsortSorts V) (hdebug : DebugFaithful V)
    (hcolumns : answerColumns schema ≠ []) {batch : RecordBatch V}
    (hschema : batch.schema = schema) {a b : Row V}
    (hbatch : batch.rows = [a, b])
    (hne : answerTuple schema a ≠ answerTuple schema b)
    (h : KeepsOrder schema (wholeInOrder orderBy) {} [batch]) :
    let columns := (answerColumns schema).map (firstNamed schema)
    (columnsKey columns a < columnsKey columns b ∧
        orderKey schema orderBy a ≤ orderKey schema orderBy b) ∨
      (columnsKey columns b < columnsKey columns a ∧
        orderKey schema orderBy b ≤ orderKey schema orderBy a) := by
  obtain ⟨whole, hwhole, hstrict⟩ :=
    h.exists_whole hsort hdebug hcolumns (by simpa using hschema)
  rw [flatMap_singleton, hbatch] at hwhole
  have hmem : ∀ row ∈ [a, b], row ∈ whole := by
    intro row hrow
    obtain ⟨r, hr, heq⟩ := hwhole.covers row hrow
    have hr' := hwhole.subset hr
    rcases mem_pair.mp hrow with rfl | rfl <;>
      rcases mem_pair.mp hr' with rfl | rfl
    · exact hr
    · exact absurd heq.symm hne
    · exact absurd heq hne
    · exact hr
  exact KeyOrder.related_of_mem (hstrict.and hwhole.ordered)
    (hmem a (by simp)) (hmem b (by simp)) fun heq => hne (heq ▸ rfl)

def rowOf (schema : Schema) (cells : Nat → V) : Row V :=
  (List.range schema.length).map fun i => some (cells i)

omit [ArrowKernels V] [LinearOrder V] in
theorem rowOf_fits (schema : Schema) (cells : Nat → V) :
    rowFits schema (rowOf schema cells) = true := by
  simp only [rowFits, Bool.and_eq_true, beq_iff_eq, all_eq_true]
  refine ⟨by simp [rowOf], ?_⟩
  rintro ⟨field, cell⟩ hcell
  obtain ⟨i, -, rfl⟩ := mem_map.mp (of_mem_zip hcell).2
  simp

omit [ArrowKernels V] [LinearOrder V] in
theorem cellAt_rowOf (cells : Nat → V) {i : Nat} (h : i < schema.length) :
    cellAt (rowOf schema cells) i = cells i := by
  simp only [cellAt, rowOf, getElem?_map, getElem?_range h]
  rfl

omit [ArrowKernels V] in
theorem before_rowOf {keys : List (Nat × Bool)}
    (hbound : ∀ key ∈ keys, key.1 < schema.length) (a b : Nat → V) :
    KeyOrder.Before keys (cellAt (rowOf schema a)) (cellAt (rowOf schema b)) ↔
      KeyOrder.Before keys a b := by
  refine Iff.trans ?_ (KeyOrder.before_comp WithBot.coe_strictMono keys a b)
  refine KeyOrder.before_congr fun key hkey => ?_
  exact ⟨cellAt_rowOf a (hbound key hkey), cellAt_rowOf b (hbound key hkey)⟩

def twoRows (schema : Schema) (a b : Nat → V) : RecordBatch V where
  schema
  rows := [rowOf schema a, rowOf schema b]
  fits row hrow := by
    rcases mem_pair.mp hrow with rfl | rfl <;> exact rowOf_fits _ _

omit [ArrowKernels V] [LinearOrder V] in
theorem answerTuple_rowOf_ne {a b : Nat → V} {i : Nat}
    (hi : i ∈ answerColumns schema) (h : a i ≠ b i) :
    answerTuple schema (rowOf schema a) ≠ answerTuple schema
    (rowOf schema b) := by
  intro heq
  have hcell := map_inj_left.mp heq i hi
  have hlt := lt_of_mem_answerColumns hi
  change cellAt (rowOf schema a) i = cellAt (rowOf schema b) i at hcell
  rw [cellAt_rowOf a hlt, cellAt_rowOf b hlt] at hcell
  exact h (WithBot.coe_injective hcell)

section Necessary

variable {schema : Schema} {orderBy : List OrderKey}
  (hkeeps : ∀ batch : RecordBatch V, batch.schema = schema →
    KeepsOrder schema (wholeInOrder orderBy) {} [batch])

include hkeeps

theorem answerColumns_of_keepsOrder [Nonempty V] (hsort : LexsortSorts V) :
    answerColumns schema ≠ [] := by
  intro hnil
  obtain ⟨v⟩ := ‹Nonempty V›
  let batch := twoRows schema (fun _ => v) fun _ => v
  obtain ⟨window, whole, hwindow, hwhole, hrows⟩ := hkeeps batch rfl
  have hschema : ∀ b ∈ [batch], b.schema = schema := by
    intro b hb
    rw [mem_singleton.mp hb]
    rfl
  obtain ⟨sorted, hsorted, hsschema, hperm, -⟩ :=
    applyOrderBy_sorted hsort hschema orderBy
  have hsame : sortedWindow (wholeInOrder orderBy) {} [batch] = .ok sorted := by
    simp only [sortedWindow, wholeInOrder, hsorted, bind, Except.bind,
      applyDistinct_nil hnil hsschema]
    rfl
  cases Except.ok.inj (hwindow.symm.trans hsame)
  have hlength : whole.length = 2 := by
    have : whole = window.flatMap (·.rows) := hrows.symm
    rw [this, hperm.length_eq]
    rfl
  obtain ⟨x, y, rfl⟩ := length_eq_two.mp hlength
  have hdistinct := hwhole.distinct
  simp [answerTuple, hnil, RecordBatch.keyOf] at hdistinct

theorem names_nodup_of_keepsOrder [Nontrivial V] (hsort : LexsortSorts V)
    (hdebug : DebugFaithful V) :
    ((answerColumns schema).map (nameAt schema)).Nodup := by
  by_contra hnames
  obtain ⟨j, hj, hfirst⟩ := exists_not_firstNamed hnames
  obtain ⟨v, w, hne⟩ := exists_pair_ne V
  let a : Nat → V := fun _ => v
  let b : Nat → V := fun i => if i = j then w else v
  have hequal : columnsKey ((answerColumns schema).map (firstNamed schema))
    (rowOf schema a) =
      columnsKey ((answerColumns schema).map (firstNamed schema))
      (rowOf schema b) := by
    refine columnsKey_eq_iff.mpr (map_congr_left fun i hi => ?_)
    obtain ⟨k, hk, rfl⟩ := mem_map.mp hi
    have hlt := lt_of_mem_answerColumns (firstNamed_mem hk)
    have hij : firstNamed schema k ≠ j := fun heq => hfirst (heq ▸ hi)
    change cellAt (rowOf schema a) _ = cellAt (rowOf schema b) _
    rw [cellAt_rowOf a hlt, cellAt_rowOf b hlt]
    simp [a, b, hij]
  rcases (hkeeps (twoRows schema a b) rfl).two_rows hsort hdebug
      (answerColumns_of_keepsOrder hkeeps hsort) rfl rfl
      (answerTuple_rowOf_ne hj (by simpa [a, b] using hne)) with hlt | hlt
  · exact hlt.1.ne hequal
  · exact hlt.1.ne hequal.symm

theorem leads_of_keepsOrder [Nontrivial V] (hsort : LexsortSorts V)
    (hdebug : DebugFaithful V) :
    KeyOrder.Leads (answerColumns schema) (resolveOrder schema orderBy) := by
  by_contra hleads
  obtain ⟨v, w, hvw⟩ := exists_pair_lt V
  obtain ⟨a, b, hbefore, ⟨c, hc, hne⟩, hnot, -⟩ :=
    KeyOrder.exists_not_before hvw (answerColumns_nodup schema) hleads
  have hnames := names_nodup_of_keepsOrder hkeeps hsort hdebug
  rw [← before_rowOf ascending_bound] at hbefore
  rw [← before_rowOf (resolveOrder_bound schema orderBy)] at hnot
  rcases (hkeeps (twoRows schema a b) rfl).two_rows hsort hdebug
      (answerColumns_of_keepsOrder hkeeps hsort) rfl rfl
      (answerTuple_rowOf_ne hc hne) with hlt | hlt
  · exact hnot ((tupleKey_le_iff _ _ _).mp hlt.2)
  · rw [map_firstNamed hnames] at hlt
    exact hlt.1.not_ge (columnsKey_le_iff.mpr hbefore)

end Necessary

/--
For every result of a schema the window holds distinct rows in the order of
`ORDER BY`, exactly if its keys only ask for the order of the columns.
-/
theorem order_by_survives_distinct_iff [Nontrivial V] (hsort : LexsortSorts V)
    (hdebug : DebugFaithful V) (schema : Schema) (orderBy : List OrderKey) :
    (∀ merged : List (RecordBatch V), (∀ b ∈ merged, b.schema = schema) →
      ∀ (clauses : PlanClauses) (page : PageRequest),
        clauses.orderBy = orderBy → clauses.isDistinct = true →
          KeepsOrder schema clauses page merged) ↔
      KeysLead schema orderBy := by
  constructor
  · intro h
    have hkeeps : ∀ batch : RecordBatch V, batch.schema = schema →
        KeepsOrder schema (wholeInOrder orderBy) {} [batch] :=
      fun batch hbatch => h [batch] (by simpa using hbatch) _ {} rfl rfl
    exact ⟨answerColumns_of_keepsOrder hkeeps hsort,
      names_nodup_of_keepsOrder hkeeps hsort hdebug,
      leads_of_keepsOrder hkeeps hsort hdebug⟩
  · rintro hlead merged hschema clauses page rfl hdistinct
    exact keepsOrder_of_keysLead hsort hdebug hlead hdistinct page hschema

end Pages

section Example

attribute [local instance] asciiUnicode integersOnly

attribute [local instance] quotedCells

def largestText : Str :=
  "SELECT n FROM a.t UNION SELECT n FROM b.t ORDER BY n DESC LIMIT 1"

def largestClauses : PlanClauses := ⟨[⟨"n", true⟩], some 1, true, 0⟩

def numberSchema : Schema := (oneCell "n" "").schema ++ [datasourceField]

def largestRows : RecordBatch Str where
  schema := numberSchema
  rows := [[some "2", some "a"], [some "3", some "b"]]
  fits := by decide

private theorem largestRows_window :
    ∃ window, sortedWindow largestClauses {} [largestRows] = .ok window ∧
      window.flatMap (·.rows) = [[some "2".toList, some "a".toList]] :=
  ⟨_, rfl, by decide⟩

/-- The largest number is asked for and the smallest one is shown. -/
theorem distinct_shows_smallest :
    letI := tableParser [(largestText, newestQuery)]
    parseClauses largestText = .ok largestClauses ∧
      shown (serve {} (askRows twoTables largestText) freshServer) =
        some ⟨["n", "_datasource"], [[some "2", some "a"]]⟩ ∧
      ¬ KeepsOrder numberSchema largestClauses {} [largestRows] := by
  refine ⟨rfl, by decide +kernel, ?_⟩
  rintro ⟨window, whole, hwindow, hwhole, hrows⟩
  obtain ⟨window', hwindow', hrows'⟩ := largestRows_window
  cases Except.ok.inj (hwindow.symm.trans hwindow')
  rw [hrows'] at hrows
  obtain ⟨first, rest, rfl⟩ :=
    exists_cons_of_ne_nil (show whole ≠ [] by rintro rfl; cases hrows)
  obtain rfl : first = [some "2".toList, some "a".toList] :=
    (List.cons.inj hrows).1.symm
  -- the row of `b` is listed too, behind the first one
  obtain ⟨r, hr, heq⟩ := hwhole.covers [some "3", some "b"] (by decide)
  have hmem : r ∈ largestRows.rows := by simpa using hwhole.subset hr
  rcases mem_pair.mp hmem with rfl | rfl
  · exact absurd heq (by decide)
  · have hr' := (mem_cons.mp hr).resolve_left (by decide)
    exact absurd ((pairwise_cons.mp hwhole.ordered).1 _ hr') (by decide)

theorem keysLead_number : KeysLead numberSchema [⟨"n", false⟩] :=
  ⟨by decide, by decide, by decide⟩

theorem order_by_survives_distinct_number :
    KeepsOrder numberSchema ⟨[⟨"n", false⟩], some 1, true, 0⟩ {}
    [largestRows] := by
  have : Nontrivial Str := ⟨[], ['a'], by decide⟩
  exact (order_by_survives_distinct_iff quotedCells_sorts quotedCells_faithful
    numberSchema
    [⟨"n", false⟩]).mpr keysLead_number [largestRows] (by simp [largestRows]) _
    {} rfl rfl

end Example

end Fuse.Server
