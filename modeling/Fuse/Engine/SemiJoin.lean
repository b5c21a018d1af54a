import Fuse.Core.Relation
import Fuse.Core.TypedCells
import Fuse.Engine.OuterJoin
import Fuse.Engine.SubQueryKey

/-!
# The semi-join reduction

`execute_semi_join` asks the build side first and adds to the filter of the
probe query that the key is one of the keys found.  Rows that the filter takes
out have no partner, so the join of what is left is the join of everything.
Cells are scalars here: what `array_value_to_scalar` reads off a column.
-/

namespace Fuse.Engine

open Foundation Fuse.Core List

section Source

variable [ArrowKernels ScalarValue]

def arrayValueToScalar (dataType : DataType) (v : ScalarValue) : ScalarValue :=
  match dataType with
  | .utf8 => v
  | .int64 => v
  | .float64 => v
  | .boolean => v
  | _ => .utf8 (ArrowKernels.display v)

structure KeysFound where
  seen : List Str := []
  keys : List ScalarValue := []

variable [PlainChars] [FloatDebug]

def KeysFound.insert (s : KeysFound) (val : ScalarValue) : KeysFound :=
  if scalarDebug val ∈ s.seen then s
  else { seen := scalarDebug val :: s.seen, keys := s.keys ++ [val] }

def collectKey (dataType : DataType) (column : Nat) (s : KeysFound)
    (row : Row ScalarValue) : KeysFound :=
  match row[column]?.join with
  | none => s
  | some v => s.insert (arrayValueToScalar dataType v)

def collectKeys (keyColumn : Str) (s : KeysFound)
    (batch : RecordBatch ScalarValue) : Fallible KeysFound :=
  match batch.schema.indexOf keyColumn with
  | none =>
    Fallible.fail ("Error during planning: join key '" ++ keyColumn ++
      "' not found")
  | some i => .ok (batch.rows.foldl
      (collectKey ((batch.schema[i]?.map (·.dataType)).getD (.other [])) i) s)

def extractJoinKeys (batches : List (RecordBatch ScalarValue))
    (keyColumn : Str) : Fallible (List ScalarValue) := do
  let s ← batches.foldlM (collectKeys keyColumn) {}
  return s.keys

def keysToInFilter (field : Str) (keys : List ScalarValue) :
    Option FilterExpr :=
  if keys = [] then none else some (.inList field keys)

abbrev Execute :=
  SubQuery → Except ConnectorError (List (RecordBatch ScalarValue))

def externally {α : Type} : Except ConnectorError α → Fallible α
  | .ok a => .ok a
  | .error e => Fallible.fail ("External error: " ++ e.toText)

def augmentedProbe (probeQuery : SubQuery) (probeKey : Str)
    (keys : List ScalarValue) : SubQuery :=
  { probeQuery with
    filter := match probeQuery.filter, keysToInFilter probeKey keys with
      | some existing, some inFilter => some (.and existing inFilter)
      | none, some inFilter => some inFilter
      | some existing, none => some existing
      | none, none => none }

def executeSemiJoin (buildConnector : Execute) (buildQuery : SubQuery)
    (buildKey : Str)
    (probeConnector : Execute) (probeQuery : SubQuery) (probeKey : Str)
    (joinType : JoinType) :
    Fallible (List (RecordBatch ScalarValue)) := do
  let buildBatches ← externally (buildConnector buildQuery)
  if buildBatches.isEmpty then return []
  else
    let keys ← extractJoinKeys buildBatches buildKey
    if keys.isEmpty then return []
    else
      let probeBatches ← externally
        (probeConnector (augmentedProbe probeQuery probeKey keys))
      hashJoin buildBatches buildKey probeBatches probeKey joinType

end Source

section Keys

variable [ArrowKernels ScalarValue] [PlainChars] [FloatDebug]

def KeysFound.Has (s : KeysFound) (val : ScalarValue) : Prop :=
  scalarDebug val ∈ s.keys.map scalarDebug

def KeysFound.Consistent (s : KeysFound) : Prop :=
  ∀ text, text ∈ s.seen ↔ text ∈ s.keys.map scalarDebug

omit [ArrowKernels ScalarValue] in
theorem KeysFound.Consistent.insert {s : KeysFound} (h : s.Consistent)
    (val : ScalarValue) : (s.insert val).Consistent ∧ (s.insert val).Has val ∧
      ∀ v, s.Has v → (s.insert val).Has v := by
  unfold KeysFound.insert
  split
  · next hseen => exact ⟨h, (h _).mp hseen, fun _ hv => hv⟩
  refine ⟨fun text => ?_, by simp [Has], fun v hv => ?_⟩
  · simp [h text, or_comm]
  · exact mem_map.mpr (by
      obtain ⟨k, hk, htext⟩ := mem_map.mp hv
      exact ⟨k, mem_append_left _ hk, htext⟩)

theorem collectKey_rows (dataType : DataType) (column : Nat)
    (rows : List (Row ScalarValue)) {s : KeysFound} (h : s.Consistent) :
    let s' := rows.foldl (collectKey dataType column) s
    s'.Consistent ∧ (∀ v, s.Has v → s'.Has v) ∧
      ∀ row ∈ rows, ∀ v, row[column]?.join = some v →
        s'.Has (arrayValueToScalar dataType v) := by
  induction rows generalizing s with
  | nil => exact ⟨h, fun _ hv => hv, by simp⟩
  | cons row rows ih =>
    rw [foldl_cons]
    cases hcell : row[column]?.join with
    | none =>
      have hsame : collectKey dataType column s row = s := by
        simp [collectKey, hcell]
      rw [hsame]
      obtain ⟨hcons, hkept, hrows⟩ := ih h
      refine ⟨hcons, hkept, fun r hr v hv => ?_⟩
      rcases mem_cons.mp hr with rfl | hr
      · rw [hcell] at hv
        cases hv
      · exact hrows r hr v hv
    | some cell =>
      have hinsert : collectKey dataType column s row =
          s.insert (arrayValueToScalar dataType cell) := by
        simp [collectKey, hcell]
      obtain ⟨hstep, hhas, hmono⟩ := h.insert (arrayValueToScalar dataType cell)
      rw [hinsert]
      obtain ⟨hcons, hkept, hrows⟩ := ih hstep
      refine ⟨hcons, fun v hv => hkept v (hmono v hv), fun r hr v hv => ?_⟩
      rcases mem_cons.mp hr with rfl | hr
      · rw [hcell] at hv
        cases hv
        exact hkept _ hhas
      · exact hrows r hr v hv

theorem collectKeys_batches (t : JoinInput ScalarValue)
    (batches : List (RecordBatch ScalarValue))
    (hsub : batches ⊆ t.batches) (s : KeysFound) :
    batches.foldlM (collectKeys t.key) s =
    .ok ((batches.flatMap (·.rows)).foldl (collectKey
        ((t.schema[t.keyAt]?.map (·.dataType)).getD (.other [])) t.keyAt)
      s) := by
  induction batches generalizing s with
  | nil => rfl
  | cons b batches ih =>
    have hb := t.sameSchema b (hsub mem_cons_self)
    have hstep : collectKeys t.key s b = .ok (b.rows.foldl (collectKey
        ((t.schema[t.keyAt]?.map (·.dataType)).getD (.other [])) t.keyAt)
        s) := by simp [collectKeys, hb, t.keyFound]
    rw [foldlM_cons, hstep]
    change List.foldlM _ _ batches = _
    rw [ih (fun x hx => hsub (mem_cons_of_mem _ hx)), flatMap_cons,
      foldl_append]

def JoinInput.keyType (t : JoinInput ScalarValue) : DataType :=
  (t.schema[t.keyAt]?.map (·.dataType)).getD (.other [])

theorem extractJoinKeys_has (t : JoinInput ScalarValue) :
    ∃ keys, extractJoinKeys t.batches t.key = .ok keys ∧
      ∀ v ∈ t.keyCells, scalarDebug (arrayValueToScalar t.keyType v) ∈
      keys.map scalarDebug := by
  have hstart : KeysFound.Consistent {} := by simp [KeysFound.Consistent]
  obtain ⟨-, -, hrows⟩ := collectKey_rows t.keyType t.keyAt t.rows hstart
  refine ⟨(t.rows.foldl (collectKey t.keyType t.keyAt) {}).keys, ?_, ?_⟩
  · rw [extractJoinKeys, collectKeys_batches t _ (List.Subset.refl _)]
    rfl
  · intro v hv
    obtain ⟨row, hrow, hcell⟩ := mem_filterMap.mp hv
    exact hrows row hrow v hcell

end Keys

section Matching

variable {V : Type} [ArrowKernels V] {joinType : JoinType}
  {build probe : JoinInput V}

private theorem tableRowPairs_matching (hfull : joinType ≠ .full) :
    tableRowPairs joinType build probe = probe.rows.flatMap fun p =>
      contribution joinType (build.rows.filter
          (sameKey build.keyAt probe.keyAt · p)) p := by
  rw [← map_probeRows, tableRowPairs, tablePairs, joinPairs]
  simp only [if_neg hfull]

theorem hashJoin_matching (htype : joinType = .inner ∨ joinType = .semi)
    (hdrops : build.batches ≠ [] → probe.batches ≠ [] →
      DropsOneColumn joinType build probe) :
    ∃ out, hashJoin build.batches build.key probe.batches probe.key joinType =
      .ok out ∧ out.flatMap (·.rows) = (probe.rows.flatMap fun p =>
        contribution joinType
        (build.rows.filter (sameKey build.keyAt probe.keyAt · p)) p).map
        (outputRow joinType build probe) := by
  have hnone : ∀ p : Row V, contribution joinType [] p = [] := by
    intro p
    rcases htype with rfl | rfl <;> simp [contribution, JoinType.keepsUnmatched]
  by_cases hnil : build.batches = [] ∨ probe.batches = []
  · refine ⟨[], ?_, ?_⟩
    · rcases htype with rfl | rfl <;> exact joinSides_nil hnil
    · rcases hnil with hnil | hnil
      · have hrows : build.rows = [] := by simp [JoinInput.rows, hnil]
        simp [hrows, hnone]
      · have hrows : probe.rows = [] := by simp [JoinInput.rows, hnil]
        simp [hrows]
  · push Not at hnil
    rcases htype with rfl | rfl
    · obtain ⟨out, hout, -, hrows⟩ := joinSides_outer hnil.1 hnil.2
        readsMissingRow_inner (hdrops hnil.1 hnil.2) (.inl rfl)
      refine ⟨[out], hout, ?_⟩
      rw [flatMap_singleton, hrows, tableRowPairs_matching (by simp)]
      rfl
    · obtain ⟨out, hout, hrows⟩ := joinSides_rightOnly hnil.1 hnil.2 (.inl rfl)
      refine ⟨[out], hout, ?_⟩
      rw [flatMap_singleton, hrows, tableRowPairs_matching (by simp)]
      rfl

end Matching

section KeyTypes

def keyScalarType : DataType → Option ScalarType
  | .utf8 => some .utf8
  | .int64 => some .int64
  | .boolean => some .boolean
  | _ => none

/-- How `array_value_to_string` writes texts, integers and truth values. -/
structure ShowsScalars [ArrowKernels ScalarValue] : Prop where
  utf8 : ∀ s, ArrowKernels.display (ScalarValue.utf8 s) = s
  int64 : ∀ n, ArrowKernels.display (ScalarValue.int64 n) = Str.ofInt n.toInt
  boolean : ∀ b, ArrowKernels.display (ScalarValue.boolean b) = boolText b

variable {dataType : DataType} {type : ScalarType} {u v : ScalarValue}

theorem eq_of_display [ArrowKernels ScalarValue] (hshows : ShowsScalars)
    (hkey : keyScalarType dataType = some type) (hu : u.type? = some type)
    (hv : v.type? = some type) (h : ArrowKernels.display u =
      ArrowKernels.display v) : u = v := by
  have htype : u.type? = v.type? := hu.trans hv.symm
  cases u with
  | null => cases hu
  | float64 f => cases hu; cases dataType <;> cases hkey
  | utf8 s =>
    cases v <;> cases htype
    rw [hshows.utf8, hshows.utf8] at h
    rw [h]
  | int64 n =>
    cases v <;> cases htype
    rw [hshows.int64, hshows.int64] at h
    rw [Int64.toInt_inj.mp (Str.ofInt_injective h)]
  | boolean b =>
    cases v <;> cases htype
    rw [hshows.boolean, hshows.boolean] at h
    rw [boolText_injective h]

theorem eq_of_scalarDebug [PlainChars] [FloatDebug]
    (hkey : keyScalarType dataType = some type)
    (hv : v.type? = some type) (h : scalarDebug u = scalarDebug v) : u = v := by
  have hcanon := readable_scalar.norm_eq h
  cases v with
  | null => cases hv
  | float64 f => cases hv; cases dataType <;> cases hkey
  | _ => cases u <;> first | exact hcanon | cases hcanon

theorem arrayValueToScalar_key [ArrowKernels ScalarValue]
    (hkey : keyScalarType dataType = some type) :
    arrayValueToScalar dataType v = v := by
  cases dataType <;> first | rfl | cases hkey

theorem typedCompare_self [FloatOps] (hkey : keyScalarType dataType = some type)
    (hv : v.type? = some type) : typedCompare .eq v v = .tt := by
  cases v with
  | null => cases hv
  | float64 f => cases hv; cases dataType <;> cases hkey
  | _ => simp [typedCompare, scalarCompare.byOrder, Std.ReflCmp.compare_self,
           Truth.ofBool]

end KeyTypes

section Reduction

variable [ArrowKernels ScalarValue]

def joinedTo (build : JoinInput ScalarValue) (keyAt : Nat) (joinType : JoinType)
    (row : Row ScalarValue) : List (RowPair ScalarValue) :=
  contribution joinType (build.rows.filter
    (sameKey build.keyAt keyAt · row)) row

theorem joinedTo_eq_nil {build : JoinInput ScalarValue} {keyAt : Nat}
    {joinType : JoinType}
    (htype : joinType = .inner ∨ joinType = .semi) {row : Row ScalarValue}
    (h : build.rows.filter (sameKey build.keyAt keyAt · row) = []) :
    joinedTo build keyAt joinType row = [] := by
  rw [joinedTo, h]
  rcases htype with rfl | rfl <;> simp [contribution, JoinType.keepsUnmatched]

end Reduction

section Exact

variable [Unicode] [FloatOps]

def passesFilter (filter : Option FilterExpr) (row : TableRow ScalarValue) :
    Bool :=
  filter.all fun f =>
    typedCells.filterTruth (fun name => (row name).getD .null) f = .tt

/-- A connector that returns, in columns that do not depend on the filter and
in any order and division, the rows of its table that pass the filter. -/
structure ExactProbe (execute : Execute) (query : SubQuery) where
  table : List (TableRow ScalarValue)
  columns : Schema
  noLimit : query.limit = none
  answers : ∀ filter, ∃ batches, execute { query with filter } = .ok batches ∧
    (∀ b ∈ batches, b.schema = columns) ∧
    (batches.flatMap (·.rows)).Perm
      ((table.filter (passesFilter filter)).map fun row =>
        columns.names.map row)

structure OneKeyType (build : JoinInput ScalarValue)
    (table : List (TableRow ScalarValue)) (probeKey : Str) : Prop where
  typed : ∃ type, keyScalarType build.keyType = some type ∧
    (∀ v ∈ build.keyCells, v.type? = some type) ∧
    ∀ row ∈ table, ∀ v ∈ row probeKey, v.type? = some type

variable {row : TableRow ScalarValue} {keys : List ScalarValue}

theorem passesFilter_some {f : FilterExpr} : passesFilter (some f) row = true ↔
      typedCells.filterTruth (fun name => (row name).getD .null) f = .tt := by
  simp [passesFilter]

theorem passesFilter_augmentedProbe {probeQuery : SubQuery} {probeKey : Str}
    (hkeys : keys ≠ []) :
    passesFilter (augmentedProbe probeQuery probeKey keys).filter row =
      (passesFilter (some (.inList probeKey keys)) row &&
        passesFilter probeQuery.filter row) := by
  cases hfilter : probeQuery.filter with
  | none => simp [augmentedProbe, keysToInFilter, hfilter, hkeys, passesFilter]
  | some f =>
    simp only [augmentedProbe, keysToInFilter, hfilter, if_neg hkeys]
    rw [Bool.eq_iff_iff, Bool.and_eq_true, passesFilter_some, passesFilter_some,
      passesFilter_some, CellModel.filterTruth, Truth.and_eq_tt, and_comm]

theorem passesFilter_inList {dataType : DataType} {type : ScalarType}
    {probeKey : Str} {v : ScalarValue}
    (hkey : keyScalarType dataType = some type) (hv : v.type? = some type)
    (hrow : row probeKey = some v) (hmem : v ∈ keys) :
    passesFilter (some (.inList probeKey keys)) row = true := by
  have htrue : Truth.any (keys.map fun k => typedCompare .eq v k) = .tt := by
    rw [Truth.any_eq_tt]
    exact mem_map.mpr ⟨v, hmem, typedCompare_self hkey hv⟩
  rw [passesFilter_some]
  simpa [CellModel.filterTruth, hrow, typedCells] using htrue

variable [ArrowKernels ScalarValue]

variable {execute : Execute} {query : SubQuery} {joinType : JoinType}
  {build : JoinInput ScalarValue} {probeKey : Str} {keyAt : Nat}

def ExactProbe.side (probe : ExactProbe execute query)
    (hfound : probe.columns.indexOf probeKey = some keyAt)
    (batches : List (RecordBatch ScalarValue))
    (h : ∀ b ∈ batches, b.schema = probe.columns) : JoinInput ScalarValue where
  batches
  schema := probe.columns
  key := probeKey
  keyAt
  sameSchema := h
  keyFound := hfound

def ExactProbe.joinedPairs (probe : ExactProbe execute query)
    (build : JoinInput ScalarValue)
    (keyAt : Nat) (joinType : JoinType) (filter : Option FilterExpr) :
    List (RowPair ScalarValue) :=
  (probe.table.filter (passesFilter filter)).flatMap fun row =>
    joinedTo build keyAt joinType (probe.columns.names.map row)

theorem ExactProbe.join_answer (probe : ExactProbe execute query)
    (build : JoinInput ScalarValue)
    (htype : joinType = .inner ∨ joinType = .semi)
    (hfound : probe.columns.indexOf probeKey = some keyAt)
    (hunique : joinType = .inner →
      probe.columns.countP (·.name = probeKey) = 1 ∨
      build.batches = [] ∨ ∀ filter, execute { query with filter } = .ok [])
    (filter : Option FilterExpr) :
    ∃ batches joined, execute { query with filter } = .ok batches ∧
      hashJoin build.batches build.key batches probeKey joinType = .ok joined ∧
      (joined.flatMap (·.rows)).Perm
      ((probe.joinedPairs build keyAt joinType filter).map
          (outputRow joinType build (probe.side hfound [] (by simp)))) := by
  obtain ⟨batches, hanswer, hschema, hrows⟩ := probe.answers filter
  have hdrops : build.batches ≠ [] →
    (probe.side hfound batches hschema).batches ≠ [] →
      DropsOneColumn joinType build (probe.side hfound batches hschema) := by
    intro hbuild hbatches
    rcases htype with rfl | rfl
    · rcases hunique rfl with hone | hnil | hsilent
      · exact hone
      · exact absurd hnil hbuild
      · exact absurd (Except.ok.inj (hanswer.symm.trans (hsilent filter)))
          hbatches
    · trivial
  obtain ⟨joined, hjoined, hout⟩ :=
    hashJoin_matching htype hdrops
  refine ⟨batches, joined, hanswer, hjoined, ?_⟩
  rw [hout]
  refine List.Perm.map _ ((hrows.flatMap_right _).trans ?_)
  rw [flatMap_map]
  exact List.Perm.refl _

theorem key_of_partner (hshows : ShowsScalars)
    {probe : ExactProbe execute query}
    (hfound : probe.columns.indexOf probeKey = some keyAt)
    (hkeys : OneKeyType build probe.table probeKey) (hrow : row ∈ probe.table)
    (h : build.rows.filter
      (sameKey build.keyAt keyAt · (probe.columns.names.map row)) ≠ []) :
    ∃ v ∈ build.keyCells, row probeKey = some v := by
  obtain ⟨b, hb⟩ := exists_mem_of_ne_nil _ h
  obtain ⟨hb, hsame⟩ := mem_filter.mp hb
  have hcell : (probe.columns.names.map row)[keyAt]?.join = row probeKey := by
    obtain ⟨hlt, hname, -⟩ := findIdx?_eq_some_iff_getElem.mp hfound
    simp only [decide_eq_true_eq] at hname
    simp [Schema.names, hlt, hname]
  simp only [sameKey, keyText, hcell, Bool.and_eq_true, decide_eq_true_eq]
    at hsame
  obtain ⟨hsome, htexts⟩ := hsame
  obtain ⟨type, htype, hbuild, htable⟩ := hkeys.typed
  cases hv : row probeKey with
  | none => simp [hv] at hsome
  | some v =>
    cases hu : b[build.keyAt]?.join with
    | none => simp [hu, hv] at htexts
    | some u =>
      simp only [hu, hv, Option.map_some, Option.some.injEq] at htexts
      have hmem : u ∈ build.keyCells := mem_filterMap.mpr ⟨b, hb, hu⟩
      have heq : u = v := eq_of_display hshows htype (hbuild u hmem)
        (htable row hrow v hv) htexts
      exact ⟨v, heq ▸ hmem, rfl⟩

section Reduced

variable (hshows : ShowsScalars) (probe : ExactProbe execute query)
  (htype : joinType = .inner ∨ joinType = .semi)
  (hfound : probe.columns.indexOf probeKey = some keyAt)
  (hkeys : OneKeyType build probe.table probeKey)

include hshows htype hfound hkeys

theorem joinedPairs_eq_nil (hnone : build.keyCells = [])
    (filter : Option FilterExpr) :
    probe.joinedPairs build keyAt joinType filter = [] := by
  rw [ExactProbe.joinedPairs, flatMap_eq_nil_iff]
  intro row hrow
  apply joinedTo_eq_nil htype
  by_contra hpartner
  obtain ⟨v, hv, -⟩ := key_of_partner hshows hfound hkeys
    (mem_of_mem_filter hrow) hpartner
  rw [hnone] at hv
  cases hv

variable [PlainChars] [FloatDebug]

theorem joinedPairs_augmentedProbe (hne : keys ≠ [])
    (hhas : ∀ v ∈ build.keyCells,
      scalarDebug (arrayValueToScalar build.keyType v) ∈ keys.map scalarDebug) :
    probe.joinedPairs build keyAt joinType
      (augmentedProbe query probeKey keys).filter =
        probe.joinedPairs build keyAt joinType query.filter := by
  have hsplit : probe.table.filter
    (passesFilter (augmentedProbe query probeKey keys).filter) =
      (probe.table.filter (passesFilter query.filter)).filter
        (passesFilter (some (.inList probeKey keys))) := by
    rw [filter_filter]
    exact filter_congr fun row _ => passesFilter_augmentedProbe hne
  rw [ExactProbe.joinedPairs, hsplit]
  apply BagJoin.flatMap_filter_of_nil
  intro row hrow hfails
  apply joinedTo_eq_nil htype
  by_contra hpartner
  have htable := mem_of_mem_filter hrow
  obtain ⟨v, hv, hcell⟩ := key_of_partner hshows hfound hkeys htable hpartner
  obtain ⟨type, hkey, hbuild, -⟩ := hkeys.typed
  obtain ⟨k, hk, htext⟩ := mem_map.mp (hhas v hv)
  rw [arrayValueToScalar_key hkey] at htext
  have hmem : v ∈ keys := eq_of_scalarDebug hkey (hbuild v hv) htext ▸ hk
  rw [passesFilter_inList hkey (hbuild v hv) hcell hmem] at hfails
  cases hfails

end Reduced

variable [PlainChars] [FloatDebug]

end Exact

section Examples

@[reducible] def scalarKernels : ArrowKernels ScalarValue where
  ofText _ text := .utf8 text
  ofF64 _ f := .float64 f
  display
    | .utf8 s => s
    | .int64 n => Str.ofInt n.toInt
    | .boolean b => boolText b
    | _ => []
  debug _ _ := []
  canCast _ _ := false
  castValue _ _ _ := none
  lexsort _ _ := none
  errorText _ := "arrow error"

theorem scalarKernels_shows : @ShowsScalars scalarKernels :=
  @ShowsScalars.mk scalarKernels (fun _ => rfl) (fun _ => rfl) fun _ => rfl

attribute [local instance] asciiUnicode integersOnly scalarKernels asciiPlain
  bitsDebug

def textColumns (names : List Str) : Schema :=
  names.map fun name => { name, dataType := .utf8, nullable := true }

theorem rowFits_textColumns (names : List Str) (row : TableRow ScalarValue) :
    rowFits (textColumns names) ((textColumns names).names.map row) = true :=
  rowFits_nullable (by simp [textColumns]) (by simp [Schema.names])

def keyedBatch (names : List Str) (table : List (TableRow ScalarValue)) :
    RecordBatch ScalarValue where
  schema := textColumns names
  rows := table.map fun row => (textColumns names).names.map row
  fits row h := by
    obtain ⟨source, -, rfl⟩ := mem_map.mp h
    exact rowFits_textColumns names source

def servingRows (names : List Str) (table : List (TableRow ScalarValue)) :
    Execute :=
  fun query => .ok [keyedBatch names (table.filter (passesFilter query.filter))]

def ownerRow (key owner : Option String) : TableRow ScalarValue := fun name =>
  if name = "k".toList then key.map (.utf8 ·.toList)
  else owner.map (.utf8 ·.toList)

def ownersSide (table : List (TableRow ScalarValue)) :
    JoinInput ScalarValue where
  batches := [keyedBatch ["k", "owner"] table]
  schema := textColumns ["k", "owner"]
  key := "k"
  keyAt := 0
  sameSchema := by simp [keyedBatch]
  keyFound := by decide

def owners : List (TableRow ScalarValue) :=
  [ownerRow (some "1") (some "ann"), ownerRow none (some "bob")]

def alertRows : List (TableRow ScalarValue) :=
  [ownerRow (some "1") (some "disk"), ownerRow (some "2") (some "load")]

def alertsQuery : SubQuery := { table := "alerts" }

def servingProbe (names : List Str) (table : List (TableRow ScalarValue)) :
    ExactProbe (servingRows names table) alertsQuery where
  table
  columns := textColumns names
  noLimit := rfl
  answers filter :=
    ⟨[keyedBatch names (table.filter (passesFilter filter))], rfl,
    by simp [keyedBatch], by simp [keyedBatch]⟩

/-- The table is empty: no filter gives no batch, a filter one without rows. -/
def silentRows (names : List Str) : Execute := fun query =>
  if query.filter = none then .ok [] else .ok [keyedBatch names []]

def silentProbe (names : List Str) :
    ExactProbe (silentRows names) alertsQuery where
  table := []
  columns := textColumns names
  noLimit := rfl
  answers filter := by
    cases filter with
    | none => exact ⟨[], rfl, by simp, by simp⟩
    | some f => exact ⟨[keyedBatch names []], rfl, by simp [keyedBatch], by
        simp [keyedBatch]⟩

end Examples

end Fuse.Engine
