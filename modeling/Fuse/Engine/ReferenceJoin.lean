import Fuse.Engine.HashJoin
import Fuse.Engine.JoinLoops
import Fuse.Foundation.Bags

/-!
# The hash join and its definition

The rows of `hash_join` for every join type are those of the nested-loop join
of its sides, laid out in the columns of `merge_schemas`.  The columns leave
out the key column of the side that is probed, by its position in the rows and
by its name in the schema.
-/

namespace Fuse.Engine

open Foundation Fuse.Core List BagJoin

structure JoinInput (V : Type) where
  batches : List (RecordBatch V)
  schema : Schema
  key : Str
  keyAt : Nat
  sameSchema : ∀ b ∈ batches, b.schema = schema
  keyFound : schema.indexOf key = some keyAt

namespace JoinInput

variable {V : Type} (t : JoinInput V)

def rows : List (Row V) := t.batches.flatMap (·.rows)

def KeyUnique : Prop := t.schema.countP (·.name = t.key) = 1

instance : Decidable t.KeyUnique := inferInstanceAs (Decidable (_ = _))

def cells (row : Option (Row V)) : Row V :=
  row.getD (List.replicate t.schema.length none)

def keyCells : List V := t.rows.filterMap fun row => row[t.keyAt]?.join

variable {t}

theorem batches_ne (h : t.rows ≠ []) : t.batches ≠ [] := by
  intro hnil
  simp [rows, hnil] at h

theorem schema_ne : t.schema ≠ [] := by
  intro hnil
  have hfound := t.keyFound
  rw [hnil] at hfound
  cases hfound

theorem rowFits_of_mem {row : Row V} (h : row ∈ t.rows) :
    rowFits t.schema row = true := by
  obtain ⟨b, hb, hrow⟩ := mem_flatMap.mp h
  exact t.sameSchema b hb ▸ b.fits row hrow

theorem length_cells {row : Option (Row V)} (h : ∀ r ∈ row, r ∈ t.rows) :
    (t.cells row).length = t.schema.length := by
  cases row with
  | none => simp [cells]
  | some r => exact length_of_rowFits (rowFits_of_mem (h r rfl))

theorem keyAt_lt : t.keyAt < t.schema.length :=
  (findIdx?_eq_some_iff_getElem.mp t.keyFound).1

/-- With one column of the key's name, and only then, the schema without that
name is the schema without the column. -/
theorem keyUnique_iff : t.KeyUnique ↔
    (t.schema.filter (·.name ≠ t.key)).length =
      (t.schema.eraseIdx t.keyAt).length := by
  have hsum := length_eq_countP_add_countP
    (fun f : Field => decide (f.name = t.key)) (l := t.schema)
  have hlt := t.keyAt_lt
  have hrest : t.schema.countP (fun f => ¬decide (f.name = t.key) = true) =
      (t.schema.filter (·.name ≠ t.key)).length := by
    rw [countP_eq_length_filter]
    simp
  rw [hrest] at hsum
  rw [KeyUnique, length_eraseIdx, if_pos hlt]
  omega

theorem filter_schema (h : t.KeyUnique) :
    t.schema.filter (·.name ≠ t.key) = t.schema.eraseIdx t.keyAt :=
  filter_eq_eraseIdx t.keyFound (keyUnique_iff.mp h).symm

end JoinInput

/-! ## The reference -/

abbrev RowPair (V : Type) := Option (Row V) × Option (Row V)

section Reference

variable {V : Type} (same : Row V → Row V → Bool)

open BagJoin in
def referencePairs (joinType : JoinType) (build probe : List (Row V)) :
    List (RowPair V) :=
  match joinType with
  | .inner => matched same build probe
  | .left => matched same build probe ++ rightOnly same build probe
  | .right => matched same build probe ++ leftOnly same build probe
  | .full => matched same build probe ++ rightOnly same build probe ++
               leftOnly same build probe
  | .semi => rightMatched same build probe
  | .anti => rightOnly same build probe

def sameValue [DecidableEq V] (buildKey probeKey : Nat) (build probe : Row V) :
    Bool :=
  build[buildKey]?.join.isSome && build[buildKey]?.join = probe[probeKey]?.join

def sideBySide (left right : JoinInput V) (pair : RowPair V) : Row V :=
  left.cells pair.1 ++ skipColumn right.keyAt (right.cells pair.2)

def outputRow (joinType : JoinType) (build probe : JoinInput V)
    (pair : RowPair V) : Row V :=
  match joinType with
  | .semi => pair.2.getD []
  | .anti => pair.2.getD []
  | .right => sideBySide probe build pair.swap
  | _ => sideBySide build probe pair

def DropsOneColumn (joinType : JoinType) (build probe : JoinInput V) : Prop :=
  match joinType with
  | .semi => True
  | .anti => True
  | .right => build.KeyUnique
  | _ => probe.KeyUnique

variable {same} {same' : Row V → Row V → Bool}

theorem referencePairs_congr {joinType : JoinType} {build probe : List (Row V)}
    (h : ∀ b ∈ build, ∀ p ∈ probe, same b p = same' b p) :
    referencePairs same joinType build probe =
      referencePairs same' joinType build probe := by
  have hmatched : matched same build probe = matched same' build probe := by
    refine flatMap_congr fun p hp => ?_
    rw [filter_congr fun b hb => h b hb p hp]
  have hleft : leftOnly same build probe = leftOnly same' build probe := by
    unfold leftOnly
    rw [filter_congr fun b hb => ?_]
    rw [Bool.eq_iff_iff, all_eq_true, all_eq_true]
    exact forall₂_congr fun p hp => by rw [h b hb p hp]
  have hright : rightOnly same build probe = rightOnly same' build probe := by
    unfold rightOnly
    rw [filter_congr fun p hp => ?_]
    rw [Bool.eq_iff_iff, all_eq_true, all_eq_true]
    exact forall₂_congr fun b hb => by rw [h b hb p hp]
  have hsemi : rightMatched same build probe =
      rightMatched same' build probe := by
    unfold rightMatched
    rw [filter_congr fun p hp => ?_]
    rw [Bool.eq_iff_iff, any_eq_true, any_eq_true]
    exact exists_congr fun b => and_congr_right fun hb => by rw [h b hb p hp]
  cases joinType <;>
    simp [referencePairs, hmatched, hleft, hright, hsemi]

end Reference

section Pairs

variable {V : Type} [ArrowKernels V] (joinType : JoinType)
  (buildKey probeKey : Nat) (build probe : List (Row V))

def rowPair (pair : JoinPair) : RowPair V :=
  (pair.1.bind (build[·]?), pair.2.bind (probe[·]?))

def contribution (found : List (Row V)) (p : Row V) : List (RowPair V) :=
  if found = [] then if joinType.keepsUnmatched then [(none, some p)] else []
  else match joinType with
    | .semi => [(none, some p)]
    | .anti => []
    | _ => found.map fun b => (some b, some p)

theorem map_probeRow {index : Nat} {p : Row V} (hp : probe[index]? = some p) :
    (probeRow joinType buildKey probeKey build index p).map
    (rowPair build probe) =
      contribution joinType (build.filter (sameKey buildKey probeKey · p))
      p := by
  have hunmatched : (if joinType.keepsUnmatched then
      [((none, some index) : JoinPair)] else []).map (rowPair build probe) =
      if joinType.keepsUnmatched then [(none, some p)] else [] := by
    cases joinType.keepsUnmatched <;> simp [rowPair, hp]
  unfold probeRow contribution
  cases hkey : keyText probeKey p with
  | none =>
    have hnone : build.filter (sameKey buildKey probeKey · p) = [] := by
      simp [sameKey, hkey]
    simpa [hnone] using hunmatched
  | some key =>
    have hsame : (sameKey buildKey probeKey · p) =
        fun b : Row V => decide (keyText buildKey b = some key) := by
      funext b
      simp [sameKey, hkey]
    have hfound : (matchingRows buildKey build key).map (build[·]?) =
        (build.filter (sameKey buildKey probeKey · p)).map some := by
      rw [hsame]
      refine map_findIdxs _ build 0 _ _ fun i hi => ?_
      simp [getElem?_eq_getElem hi]
    cases hrows : matchingRows buildKey build key with
    | nil =>
      have hnone : build.filter (sameKey buildKey probeKey · p) = [] := by
        simpa [hrows] using hfound.symm
      simpa only [hrows, hnone, if_true] using hunmatched
    | cons b found =>
      have hsome : build.filter (sameKey buildKey probeKey · p) ≠ [] := by
        intro hnone
        simp [hrows, hnone] at hfound
      have hpairs : ((b :: found).map fun b => (some b, some index)).map
        (rowPair build probe) =
          (build.filter (sameKey buildKey probeKey · p)).map fun b =>
          (some b, some p) := by
        have hpaired := congrArg (List.map fun b => (b, some p)) hfound
        simpa [hrows, rowPair, hp, Function.comp_def] using hpaired
      simp only [hrows, if_neg hsome]
      cases joinType with
      | semi => simp [rowPair, hp]
      | anti => rfl
      | _ => exact hpairs

theorem map_probeRows : ((probe.zipIdx.map fun row =>
        probeRow joinType buildKey probeKey build row.2 row.1).flatten).map
        (rowPair build probe) = probe.flatMap fun p => contribution joinType
        (build.filter (sameKey buildKey probeKey · p)) p := by
  rw [map_flatten, map_map, flatMap_def]
  conv_rhs =>
    rw [← zipIdx_map_fst 0 probe, map_map]
  congr 1
  refine map_congr_left fun row hrow => ?_
  exact map_probeRow joinType buildKey probeKey build probe
    (mem_zipIdx_iff_getElem?.mp hrow)

theorem map_filter_range {α β : Type} (l : List α) (test : Nat → Bool)
    {pick : α → Bool}
    {f : Nat → β} {g : α → β} (htest : ∀ i (hi : i < l.length),
      test i = pick l[i])
    (hf : ∀ i (hi : i < l.length), f i = g l[i]) :
    ((List.range l.length).filter test).map f = (l.filter pick).map g := by
  have hat : ∀ p ∈ l.zipIdx, ∃ hi : p.2 < l.length, l[p.2] = p.1 := by
    intro p hp
    exact List.getElem?_eq_some_iff.mp (mem_zipIdx_iff_getElem?.mp hp)
  have hrange : List.range l.length = l.zipIdx.map Prod.snd := by
    simp [range_eq_range']
  conv_rhs => rw [← zipIdx_map_fst 0 l]
  rw [hrange, filter_map, filter_map, map_map, map_map,
    filter_congr fun p hp => ?_]
  · refine map_congr_left fun p hp => ?_
    obtain ⟨hi, hp⟩ := hat p (mem_of_mem_filter hp)
    exact (hf p.2 hi).trans (congrArg g hp)
  · obtain ⟨hi, hp⟩ := hat p hp
    exact (htest p.2 hi).trans (congrArg pick hp)

private theorem mem_fst_probeRow {b : Nat} (index : Nat) {p : Row V}
    (hmatches : joinType ≠ .semi ∧ joinType ≠ .anti) (hb : b < build.length) :
    (∃ pair ∈ probeRow joinType buildKey probeKey build index p,
        pair.1 = some b) ↔ sameKey buildKey probeKey build[b] p = true := by
  unfold probeRow
  have hunmatched : ¬∃ pair ∈ (if joinType.keepsUnmatched then
      [((none, some index) : JoinPair)] else []), pair.1 = some b := by
    cases joinType.keepsUnmatched <;> simp
  cases hkey : keyText probeKey p with
  | none => simp [sameKey, hkey]
  | some key =>
    have hmem : b ∈ matchingRows buildKey build key ↔
        sameKey buildKey probeKey build[b] p = true := by
      rw [matchingRows, mem_findIdxs_iff_getElem_sub_pos]
      simp [sameKey, hkey, hb]
    rw [← hmem]
    cases hrows : matchingRows buildKey build key with
    | nil =>
      simp only [hrows, not_mem_nil, iff_false]
      exact hunmatched
    | cons c found =>
      have hpairs : (∃ pair ∈ (c :: found).map
          fun b => ((some b, some index) : JoinPair), pair.1 = some b) ↔
          b ∈ c :: found := by simp [eq_comm]
      simp only [hrows]
      cases joinType with
      | semi => exact absurd rfl hmatches.1
      | anti => exact absurd rfl hmatches.2
      | _ => exact hpairs

theorem map_unmatchedBuild (hmatches : joinType ≠ .semi ∧ joinType ≠ .anti) :
    (unmatchedBuild build (probe.zipIdx.map fun row =>
        probeRow joinType buildKey probeKey build row.2 row.1).flatten).map
        (rowPair build probe) =
      leftOnly (sameKey buildKey probeKey) build probe := by
  unfold unmatchedBuild leftOnly
  rw [map_map]
  refine map_filter_range build _ (fun b hb => ?_) (fun b hb => ?_)
  · rw [Bool.eq_iff_iff, Bool.not_eq_true', any_eq_false, all_eq_true]
    constructor
    · intro hnone p hp
      obtain ⟨index, hindex⟩ := getElem?_of_mem hp
      rw [Bool.not_eq_true', ← Bool.not_eq_true, ← mem_fst_probeRow joinType
        buildKey probeKey build index hmatches hb]
      rintro ⟨pair, hpair, hfst⟩
      refine hnone pair (mem_flatten.mpr ⟨_, mem_map.mpr
        ⟨(p, index), mem_zipIdx_iff_getElem?.mpr hindex, rfl⟩, hpair⟩) ?_
      simpa using hfst
    · intro hall pair hpair hfst
      obtain ⟨pairs, hpairs, hpair⟩ := mem_flatten.mp hpair
      obtain ⟨row, hrow, rfl⟩ := mem_map.mp hpairs
      have hp := mem_of_getElem? (mem_zipIdx_iff_getElem?.mp hrow)
      have hsame := (mem_fst_probeRow joinType buildKey probeKey build row.2
        hmatches hb).mp ⟨pair, hpair, by simpa using hfst⟩
      simpa [hsame] using hall row.1 hp
  · simp [rowPair, getElem?_eq_getElem hb]

theorem map_joinPairs_inner :
    (joinPairs .inner buildKey probeKey build probe).map (rowPair build probe) =
      matched (sameKey buildKey probeKey) build probe := by
  simp only [joinPairs, reduceCtorEq, if_false]
  rw [map_probeRows]
  refine flatMap_congr fun p _ => ?_
  simp only [contribution, JoinType.keepsUnmatched]
  split <;> simp_all

theorem joinPairs_perm (hright : joinType ≠ .right) :
    ((joinPairs joinType buildKey probeKey build probe).map
      (rowPair build probe)).Perm
      (referencePairs (sameKey buildKey probeKey) joinType build probe) := by
  have hinner := map_joinPairs_inner buildKey probeKey build probe
  have hrows := map_probeRows joinType buildKey probeKey build probe
  have houter := outer_perm (sameKey buildKey probeKey) build probe
  cases joinType with
  | right => exact absurd rfl hright
  | inner => exact .of_eq hinner
  | left =>
    simp only [joinPairs, reduceCtorEq, if_false]
    rw [hrows]
    exact houter
  | full =>
    simp only [joinPairs, if_true, map_append]
    rw [hrows, map_unmatchedBuild .full buildKey probeKey build probe (by simp)]
    exact houter.append_right _
  | semi =>
    simp only [joinPairs, referencePairs, reduceCtorEq, if_false]
    rw [hrows, rightMatched, ← flatMap_ite]
    refine List.Perm.of_eq (flatMap_congr fun p _ => ?_)
    by_cases hnone : build.filter (sameKey buildKey probeKey · p) = []
    · have hany : build.any (sameKey buildKey probeKey · p) = false := by
        simpa [filter_eq_nil_iff] using hnone
      simp [contribution, hnone, hany, JoinType.keepsUnmatched]
    · have hany : build.any (sameKey buildKey probeKey · p) = true := by
        simpa [filter_eq_nil_iff] using hnone
      simp [contribution, hnone, hany]
  | anti =>
    simp only [joinPairs, referencePairs, reduceCtorEq, if_false]
    rw [hrows, rightOnly, ← flatMap_ite]
    refine List.Perm.of_eq (flatMap_congr fun p _ => ?_)
    by_cases hnone : build.filter (sameKey buildKey probeKey · p) = []
    · have hall : build.all (!sameKey buildKey probeKey · p) = true := by
        simpa [filter_eq_nil_iff] using hnone
      simp [contribution, hnone, hall, JoinType.keepsUnmatched]
    · have hall : build.all (!sameKey buildKey probeKey · p) = false := by
        simpa [filter_eq_nil_iff] using hnone
      simp [contribution, hnone, hall]

end Pairs

section Batches

variable {V : Type} [ArrowKernels V]

def JoinInput.merged (t : JoinInput V) : RecordBatch V :=
  ⟨t.schema, t.rows, fun _ h => rowFits_of_mem h⟩

theorem JoinInput.concatBatches_eq (t : JoinInput V) :
    RecordBatch.concatBatches t.schema t.batches = .ok t.merged := by
  obtain ⟨⟨schema, rows, fits⟩, hmerged, hschema, hrows⟩ :=
    concatBatches_same t.sameSchema
  subst hschema hrows
  exact hmerged

variable (joinType : JoinType) (build probe : JoinInput V)

def tablePairs : List JoinPair :=
  joinPairs joinType build.keyAt probe.keyAt build.rows probe.rows

def readsMissingRow : Bool :=
  (tablePairs joinType build probe).any (·.1 = none) && build.rows.isEmpty ||
    (tablePairs joinType build probe).any (·.2 = none) &&
      probe.rows.isEmpty && !(skipColumn probe.keyAt probe.schema).isEmpty

theorem joinSides_eq (hbuild : build.batches ≠ [])
    (hprobe : probe.batches ≠ []) :
    joinSides build.batches build.key probe.batches probe.key joinType =
      if joinType = .semi || joinType = .anti then
        .ok [probe.merged.gather
          ((tablePairs joinType build probe).filterMap (·.2))]
      else if readsMissingRow joinType build probe then
        Fallible.panic .indexOutOfBounds
      else (RecordBatch.tryNew
        (mergeSchemas build.schema probe.schema probe.key joinType)
          (build.schema.types ++ skipColumn probe.keyAt probe.schema.types)
          ((tablePairs joinType build probe).map fun pair =>
            sideBySide build probe (rowPair build.rows probe.rows pair))).bind
        fun joined => .ok [joined] := by
  have hcells : ∀ (t : JoinInput V) (i : Option Nat),
      rowAt t.rows t.schema.length i = t.cells (i.bind (t.rows[·]?)) := by
    rintro t (_ | i) <;> rfl
  have hb := build.sameSchema
  have hp := probe.sameSchema
  have hmergedB := build.concatBatches_eq
  have hmergedP := probe.concatBatches_eq
  obtain ⟨b, bs, hbs⟩ := exists_cons_of_ne_nil hbuild
  obtain ⟨p, ps, hps⟩ := exists_cons_of_ne_nil hprobe
  rw [hbs] at hb hmergedB ⊢
  rw [hps] at hp hmergedP ⊢
  unfold joinSides keyIndex
  dsimp only
  rw [hb b mem_cons_self, hp p mem_cons_self, hmergedB, hmergedP,
    build.keyFound, probe.keyFound]
  have hrows : ∀ pair : JoinPair, pairRow probe.keyAt build.rows probe.rows
      build.schema.length probe.schema.length pair =
      sideBySide build probe (rowPair build.rows probe.rows pair) := by
    intro pair
    rw [pairRow, hcells, hcells]
    rfl
  simp only [← hrows]
  rfl

def tableRowPairs : List (RowPair V) :=
  (tablePairs joinType build probe).map (rowPair build.rows probe.rows)

variable {joinType build probe}

theorem joinSides_rightOnly (hbuild : build.batches ≠ [])
    (hprobe : probe.batches ≠ [])
    (htype : joinType = .semi ∨ joinType = .anti) :
    ∃ out, joinSides build.batches build.key probe.batches probe.key joinType =
      .ok [out] ∧
      out.rows = (tableRowPairs joinType build probe).map (·.2.getD []) := by
  have hsome : ∀ pair ∈ tableRowPairs joinType build probe,
      pair.2 = some (pair.2.getD []) := by
    intro pair hpair
    have hmem := (joinPairs_perm joinType build.keyAt probe.keyAt build.rows
      probe.rows (by rcases htype with rfl | rfl <;> simp)).mem_iff.mp hpair
    rcases htype with rfl | rfl <;>
    · obtain ⟨p, -, rfl⟩ := mem_map.mp hmem
      rfl
  have hrows : ((tablePairs joinType build probe).filterMap (·.2)).filterMap
      (probe.rows[·]?) = (tableRowPairs joinType build probe).map
          (·.2.getD []) := by
    have hpicked : ((tablePairs joinType build probe).filterMap (·.2)).filterMap
      (probe.rows[·]?) =
        (tableRowPairs joinType build probe).filterMap (·.2) := by
      rw [filterMap_filterMap, tableRowPairs, filterMap_map]
      rfl
    rw [hpicked, filterMap_congr hsome, ← filterMap_eq_map]
    rfl
  have htest : (joinType = .semi || joinType = .anti) = true := by simpa
    using htype
  let picked := (tablePairs joinType build probe).filterMap (·.2)
  refine ⟨probe.merged.gather picked, ?_, hrows⟩
  rw [joinSides_eq joinType build probe hbuild hprobe, if_pos htest]

omit [ArrowKernels V] in
theorem mergeSchemas_ne :
    mergeSchemas build.schema probe.schema probe.key joinType ≠ [] := by
  intro hnil
  have hleft := (append_eq_nil_iff.mp hnil).1
  exact build.schema_ne (map_eq_nil_iff.mp hleft)

omit [ArrowKernels V] in
theorem mergeSchemas_types (h : probe.KeyUnique) :
    build.schema.types ++ skipColumn probe.keyAt probe.schema.types =
      (mergeSchemas build.schema probe.schema probe.key joinType).types := by
  rw [mergeSchemas, probe.filter_schema h]
  simp only [Schema.types, skipColumn, map_append, map_map, eraseIdx_map]
  congr 1
  refine map_congr_left fun f _ => ?_
  simp only [Function.comp_apply]
  split <;> rfl

omit [ArrowKernels V] in
/-- The rows of a pair that is not unmatched on the left fit the columns of an
inner join; all pairs fit where the left columns may be NULL. -/
theorem rowFits_sideBySide (h : probe.KeyUnique) {pair : RowPair V}
    (hleft : ∀ b ∈ pair.1, b ∈ build.rows)
    (hright : ∀ p ∈ pair.2, p ∈ probe.rows)
    (hwidened : joinType = .left ∨ joinType = .full ∨ pair.1.isSome) :
    rowFits (mergeSchemas build.schema probe.schema probe.key joinType)
      (sideBySide build probe pair) = true := by
  have hlength : (skipColumn probe.keyAt (probe.cells pair.2)).length =
      (probe.schema.eraseIdx probe.keyAt).length := by
    simp [skipColumn, length_eraseIdx, JoinInput.length_cells hright]
  rw [mergeSchemas, probe.filter_schema h]
  refine rowFits_append ?_ (rowFits_nullable (by simp) (by simpa using hlength))
  by_cases hwide : (joinType = .left || joinType = .full) = true
  · refine rowFits_nullable ?_ ?_
    · simp [hwide]
    · simpa using JoinInput.length_cells hleft
  have hsome : pair.1.isSome := by
    rcases hwidened with rfl | rfl | hsome
    · simp at hwide
    · simp at hwide
    · exact hsome
  obtain ⟨b, hb⟩ := Option.isSome_iff_exists.mp hsome
  have hcells : build.cells pair.1 = b := by rw [hb]; rfl
  rw [hcells]
  simpa [hwide] using JoinInput.rowFits_of_mem (hleft b hb)

theorem mem_tableRowPairs {pair : RowPair V}
    (h : pair ∈ tableRowPairs joinType build probe) :
    (∀ b ∈ pair.1, b ∈ build.rows) ∧ ∀ p ∈ pair.2, p ∈ probe.rows := by
  obtain ⟨⟨i, j⟩, -, rfl⟩ := mem_map.mp h
  constructor
  · intro b hb
    obtain ⟨n, -, hn⟩ := Option.bind_eq_some_iff.mp hb
    exact mem_of_getElem? hn
  · intro p hp
    obtain ⟨n, -, hn⟩ := Option.bind_eq_some_iff.mp hp
    exact mem_of_getElem? hn

theorem readsMissingRow_of_rows (hbuild : build.rows ≠ [])
    (hprobe : probe.rows ≠ []) : readsMissingRow joinType build probe =
      false := by
  simp [readsMissingRow, hbuild, hprobe]

theorem readsMissingRow_inner : readsMissingRow .inner build probe = false := by
  have hsome : ∀ pair ∈ tablePairs .inner build probe, pair.1 ≠ none ∧
      pair.2 ≠ none := by
    intro pair hpair
    have hmem := mem_map_of_mem (f := rowPair build.rows probe.rows) hpair
    rw [tablePairs, map_joinPairs_inner] at hmem
    obtain ⟨p, -, hmem⟩ := mem_flatMap.mp hmem
    obtain ⟨b, -, hpair⟩ := mem_map.mp hmem
    constructor <;> intro hnone <;> simp [rowPair, hnone] at hpair
  have hfirst : (tablePairs .inner build probe).any (·.1 = none) = false :=
    any_eq_false.mpr fun pair hpair => by simpa using (hsome pair hpair).1
  have hsecond : (tablePairs .inner build probe).any (·.2 = none) = false :=
    any_eq_false.mpr fun pair hpair => by simpa using (hsome pair hpair).2
  simp [readsMissingRow, hfirst, hsecond]

theorem joinSides_outer (hbuild : build.batches ≠ [])
    (hprobe : probe.batches ≠ [])
    (hreads : readsMissingRow joinType build probe = false)
    (hunique : probe.KeyUnique)
    (htype : joinType = .inner ∨ joinType = .left ∨ joinType = .full) :
    ∃ out, joinSides build.batches build.key probe.batches probe.key joinType =
      .ok [out] ∧
      out.schema = mergeSchemas build.schema probe.schema probe.key joinType ∧
      out.rows = (tableRowPairs joinType build probe).map
      (sideBySide build probe) := by
  have hfits : ∀ row ∈ (tableRowPairs joinType build probe).map
    (sideBySide build probe),
      rowFits (mergeSchemas build.schema probe.schema probe.key joinType) row =
        true := by
    intro row hrow
    obtain ⟨pair, hpair, rfl⟩ := mem_map.mp hrow
    obtain ⟨hleft, hright⟩ := mem_tableRowPairs hpair
    refine rowFits_sideBySide hunique hleft hright ?_
    rcases htype with rfl | htype
    · obtain ⟨b, hb⟩ : ∃ b, pair.1 = some b := by
        rw [tableRowPairs, tablePairs, map_joinPairs_inner] at hpair
        obtain ⟨p, -, hmem⟩ := mem_flatMap.mp hpair
        obtain ⟨b, -, rfl⟩ := mem_map.mp hmem
        exact ⟨b, rfl⟩
      simp [hb]
    · exact htype.imp_right .inl
  refine ⟨⟨_, _, hfits⟩, ?_, rfl, rfl⟩
  have hrows := RecordBatch.tryNew_ok ⟨_, _, hfits⟩ mergeSchemas_ne
  rw [joinSides_eq joinType build probe hbuild hprobe,
    if_neg (by rcases htype with rfl | rfl | rfl <;> simp), hreads,
    if_neg Bool.false_ne_true, mergeSchemas_types hunique]
  simp only [tableRowPairs, map_map] at hrows ⊢
  rw [show (fun pair => sideBySide build probe
    (rowPair build.rows probe.rows pair)) =
      sideBySide build probe ∘ rowPair build.rows probe.rows from rfl, hrows]
  rfl

theorem joinSides_inner {build probe : List (RecordBatch V)}
    {schemaB schemaP : Schema}
    {keyB keyP : Str} {i j : Nat} (hbuild : ∀ b ∈ build, b.schema = schemaB)
    (hneB : build ≠ [])
    (hprobe : ∀ p ∈ probe, p.schema = schemaP) (hneP : probe ≠ [])
    (hi : schemaB.indexOf keyB = some i) (hj : schemaP.indexOf keyP = some j)
    (hunique : schemaP.filter (·.name ≠ keyP) = schemaP.eraseIdx j) :
    ∃ joined, joinSides build keyB probe keyP .inner = .ok [joined] ∧
      joined.schema = mergeSchemas schemaB schemaP keyP .inner ∧
      joined.rows = nestedLoop i j (build.flatMap (·.rows))
      (probe.flatMap (·.rows)) := by
  let left : JoinInput V := ⟨build, schemaB, keyB, i, hbuild, hi⟩
  let right : JoinInput V := ⟨probe, schemaP, keyP, j, hprobe, hj⟩
  have hone : right.KeyUnique :=
    JoinInput.keyUnique_iff.mpr (congrArg length hunique)
  obtain ⟨joined, hjoined, hschema, hrows⟩ :=
    joinSides_outer (show left.batches ≠ [] from hneB) hneP
      readsMissingRow_inner hone (.inl rfl)
  refine ⟨joined, hjoined, hschema, hrows.trans ?_⟩
  rw [tableRowPairs, tablePairs, map_joinPairs_inner, matched, map_flatMap]
  simp only [map_map]
  rfl

/-- The columns and the fields are not as many when the key's name is that of
several columns. -/
theorem joinSides_ambiguous (hbuild : build.rows ≠ [])
    (hprobe : probe.rows ≠ [])
    (hunique : ¬probe.KeyUnique) (htype : joinType = .inner ∨ joinType = .left ∨
      joinType = .full) :
    joinSides build.batches build.key probe.batches probe.key joinType =
      RecordBatch.arrowError V .columnCount := by
  have hcount :
    (build.schema.types ++ skipColumn probe.keyAt probe.schema.types).length ≠
      (mergeSchemas build.schema probe.schema probe.key joinType).length := by
    rw [JoinInput.keyUnique_iff] at hunique
    simp only [mergeSchemas, skipColumn, Schema.types, eraseIdx_map,
      length_append, length_map] at hunique ⊢
    omega
  rw [joinSides_eq joinType build probe (build.batches_ne hbuild)
    (probe.batches_ne hprobe),
    if_neg (by rcases htype with rfl | rfl | rfl <;> simp),
    readsMissingRow_of_rows hbuild hprobe,
    if_neg Bool.false_ne_true, RecordBatch.tryNew, if_neg mergeSchemas_ne,
    if_pos hcount]
  rfl

private theorem sameKey_swap (buildKey probeKey : Nat) :
    sameKey (V := V) probeKey buildKey = fun p b =>
    sameKey buildKey probeKey b p := by
  funext p b
  unfold sameKey
  cases keyText buildKey b <;> cases keyText probeKey p <;>
    simp [eq_comm]

theorem referencePairs_swap (buildKey probeKey : Nat)
    (build probe : List (Row V)) :
    ((referencePairs (sameKey probeKey buildKey) .left probe build).map
      Prod.swap).Perm
      (referencePairs (sameKey buildKey probeKey) .right build probe) := by
  rw [sameKey_swap, referencePairs, referencePairs, map_append, swap_rightOnly]
  exact (swap_matched _ _ _).append_right _

theorem hashJoin_rows (hbuild : build.rows ≠ []) (hprobe : probe.rows ≠ [])
    (hdrops : DropsOneColumn joinType build probe) : ∃ out, ∃ pairs :
    List (RowPair V),
      hashJoin build.batches build.key probe.batches probe.key joinType =
        .ok [out] ∧
      pairs.Perm (referencePairs (sameKey build.keyAt probe.keyAt) joinType
        build.rows probe.rows) ∧
      out.rows = pairs.map (outputRow joinType build probe) := by
  have hperm : joinType ≠ .right →
      (tableRowPairs joinType build probe).Perm (referencePairs
        (sameKey build.keyAt probe.keyAt) joinType build.rows probe.rows) :=
    joinPairs_perm joinType build.keyAt probe.keyAt build.rows probe.rows
  have hreads : readsMissingRow joinType build probe = false :=
    readsMissingRow_of_rows hbuild hprobe
  have hsides : joinType = .semi ∨ joinType = .anti → _ :=
    joinSides_rightOnly (build.batches_ne hbuild) (probe.batches_ne hprobe)
  cases joinType with
  | inner | left | full =>
    obtain ⟨out, hout, -, hrows⟩ :=
      joinSides_outer (build.batches_ne hbuild) (probe.batches_ne hprobe)
      hreads hdrops (by simp)
    exact ⟨out, _, hout, hperm (by simp), hrows⟩
  | semi | anti =>
    obtain ⟨out, hout, hrows⟩ := hsides (by simp)
    exact ⟨out, _, hout, hperm (by simp), hrows⟩
  | right =>
    obtain ⟨out, hout, -, hrows⟩ :=
      joinSides_outer (probe.batches_ne hprobe) (build.batches_ne hbuild)
        (readsMissingRow_of_rows hprobe hbuild) hdrops (.inr (.inl rfl))
    refine ⟨out, (tableRowPairs .left probe build).map Prod.swap, hout, ?_, ?_⟩
    · have hswapped := (joinPairs_perm .left probe.keyAt build.keyAt probe.rows
        build.rows (by simp)).map Prod.swap
      exact hswapped.trans (referencePairs_swap _ _ _ _)
    · rw [hrows, map_map]
      rfl

theorem hashJoin_ambiguous (hbuild : build.rows ≠ []) (hprobe : probe.rows ≠ [])
    (hdrops : ¬DropsOneColumn joinType build probe) :
    hashJoin build.batches build.key probe.batches probe.key joinType =
      RecordBatch.arrowError V .columnCount := by
  cases joinType with
  | inner | left | full =>
    refine joinSides_ambiguous hbuild hprobe hdrops ?_
    simp
  | right => exact joinSides_ambiguous hprobe hbuild hdrops (.inr (.inl rfl))
  | semi | anti => exact absurd trivial hdrops

def RendersApart (build probe : JoinInput V) : Prop :=
  ∀ u ∈ build.keyCells ++ probe.keyCells,
    ∀ v ∈ build.keyCells ++ probe.keyCells,
    ArrowKernels.display u = ArrowKernels.display v → u = v

theorem sameKey_eq_sameValue [DecidableEq V] (h : RendersApart build probe)
    {b p : Row V} (hb : b ∈ build.rows) (hp : p ∈ probe.rows) :
    sameKey build.keyAt probe.keyAt b p =
      sameValue build.keyAt probe.keyAt b p := by
  unfold sameKey sameValue keyText
  cases hkeyB : b[build.keyAt]?.join with
  | none => cases p[probe.keyAt]?.join <;> simp
  | some u =>
    cases hkeyP : p[probe.keyAt]?.join with
    | none => simp
    | some v =>
      have hu : u ∈ build.keyCells := mem_filterMap.mpr ⟨b, hb, hkeyB⟩
      have hv : v ∈ probe.keyCells := mem_filterMap.mpr ⟨p, hp, hkeyP⟩
      have htexts : ArrowKernels.display u = ArrowKernels.display v ↔ u = v :=
        ⟨h u (mem_append_left _ hu) v (mem_append_right _ hv), congrArg _⟩
      simp [htexts]

/--
The rows of a hash join are the pairs of the nested-loop join on equal keys,
if the key column that is left out is the only one of its name; if it is not,
an inner or outer join fails.
-/
theorem hashJoin_reference [DecidableEq V] (hbuild : build.rows ≠ [])
    (hprobe : probe.rows ≠ []) (hkeys : RendersApart build probe) :
    (DropsOneColumn joinType build probe → ∃ out, ∃ pairs : List (RowPair V),
        hashJoin build.batches build.key probe.batches probe.key joinType =
          .ok [out] ∧
        pairs.Perm (referencePairs (sameValue build.keyAt probe.keyAt) joinType
          build.rows probe.rows) ∧
        out.rows = pairs.map (outputRow joinType build probe)) ∧
    (¬DropsOneColumn joinType build probe →
      hashJoin build.batches build.key probe.batches probe.key joinType =
        RecordBatch.arrowError V .columnCount) := by
  refine ⟨fun hdrops => ?_, hashJoin_ambiguous hbuild hprobe⟩
  rw [← referencePairs_congr fun b hb p hp => sameKey_eq_sameValue hkeys hb hp]
  exact hashJoin_rows hbuild hprobe hdrops

/-! ## The names of the joined columns -/

/-- A renamed column meets no column of the other side and no column that keeps
its name. -/
def RenamesApart (build probe : Schema) (key : Str) : Prop :=
  ∀ name ∈ probe.names, name ≠ key → name ∈ build.names →
    "probe_" ++ name ∉ build.names ∧
    ("probe_" ++ name ∈ probe.names → "probe_" ++ name = key)

omit [ArrowKernels V] in
theorem mergeSchemas_names (build probe : Schema) (key : Str) :
    (mergeSchemas build probe key joinType).names =
      build.names ++ (probe.names.filter (· ≠ key)).map (probeName build) := by
  simp only [mergeSchemas, Schema.names, map_append, map_map, filter_map]
  congr 1
  refine map_congr_left fun f _ => ?_
  simp only [Function.comp_apply]
  split <;> rfl

omit [ArrowKernels V] in
theorem mergeSchemas_nodup_iff {build probe : Schema} {key : Str}
    (hbuild : build.names.Nodup) (hprobe : probe.names.Nodup) :
    (mergeSchemas build probe key joinType).names.Nodup ↔
    RenamesApart build probe key := by
  have hlonger : ∀ name : Str, "probe_" ++ name ≠ name := fun name h => by
    have := congrArg length h
    simp at this
    omega
  rw [mergeSchemas_names, nodup_append, nodup_map_iff_inj_on (hprobe.filter _)]
  simp only [mem_filter, decide_eq_true_eq, mem_map]
  constructor
  · rintro ⟨-, hinj, hdisjoint⟩ name hname hkey hclash
    have hrenamed : probeName build name = "probe_" ++ name := if_pos hclash
    have hnew : "probe_" ++ name ∉ build.names := fun hmem =>
      hdisjoint _ hmem _ ⟨name, ⟨hname, hkey⟩, hrenamed⟩ rfl
    refine ⟨hnew, fun hmem => by_contra fun hother => hlonger name ?_⟩
    exact hinj _ ⟨hmem, hother⟩ name ⟨hname, hkey⟩
      ((if_neg hnew).trans hrenamed.symm)
  · intro happart
    refine ⟨hbuild, ?_, ?_⟩
    · rintro x ⟨hx, hxkey⟩ y ⟨hy, hykey⟩ hsame
      unfold probeName at hsame
      split at hsame <;> split at hsame
      · exact append_cancel_left hsame
      · rename_i hclash _
        exact absurd (hsame ▸ (happart x hx hxkey hclash).2 (hsame ▸ hy)) hykey
      · rename_i _ hclash
        exact absurd (hsame ▸ (happart y hy hykey hclash).2 (hsame ▸ hx)) hxkey
      · exact hsame
    · rintro b hb _ ⟨name, ⟨hname, hkey⟩, rfl⟩ rfl
      unfold probeName at hb
      split at hb
      · rename_i hclash
        exact (happart name hname hkey hclash).1 hb
      · contradiction

structure Shows (field column : Field) : Prop where
  name : field.name = column.name ∨ field.name = "probe_" ++ column.name
  dataType : field.dataType = column.dataType

omit [ArrowKernels V] in
theorem mergeSchemas_shows (h : probe.KeyUnique) :
    Forall₂ Shows (mergeSchemas build.schema probe.schema probe.key joinType)
      (build.schema ++ skipColumn probe.keyAt probe.schema) := by
  rw [mergeSchemas, probe.filter_schema h, skipColumn]
  refine rel_append ?_ ?_ <;> rw [forall₂_map_left_iff, forall₂_same]
    <;> intro f _
  · split <;> exact ⟨.inl rfl, rfl⟩
  · refine ⟨?_, rfl⟩
    unfold probeName
    split
    · exact .inr rfl
    · exact .inl rfl

omit [ArrowKernels V] in
theorem JoinInput.keyUnique_of_nodup {t : JoinInput V}
    (h : t.schema.names.Nodup) :
    t.KeyUnique := by
  obtain ⟨hlt, hname, -⟩ := findIdx?_eq_some_iff_getElem.mp t.keyFound
  have hmem : t.key ∈ t.schema.names :=
    mem_map.mpr ⟨_, getElem_mem hlt, by simpa using hname⟩
  have hcount := count_eq_one_of_mem h hmem
  rw [Schema.names, count, countP_map] at hcount
  exact (countP_congr fun f _ => by simp).trans hcount

/--
The fields of the merged schema stand for the gathered columns in their order;
their names are distinct if and only if no renamed column takes a name in use.
-/
theorem joined_names_distinct_iff (hbuild : build.schema.names.Nodup)
    (hprobe : probe.schema.names.Nodup) :
    ((mergeSchemas build.schema probe.schema probe.key joinType).names.Nodup ∧
      Forall₂ Shows (mergeSchemas build.schema probe.schema probe.key joinType)
        (build.schema ++ skipColumn probe.keyAt probe.schema) ∧
      (build.rows ≠ [] → probe.rows ≠ [] →
        joinType = .inner ∨ joinType = .left ∨ joinType = .full →
        ∃ out, joinSides build.batches build.key probe.batches probe.key
        joinType = .ok [out] ∧
          out.schema = mergeSchemas build.schema probe.schema probe.key
          joinType ∧ out.rows = (tableRowPairs joinType build probe).map
          (sideBySide build probe))) ↔
      RenamesApart build.schema probe.schema probe.key := by
  have hunique := JoinInput.keyUnique_of_nodup hprobe
  rw [mergeSchemas_nodup_iff hbuild hprobe]
  refine and_iff_left ⟨mergeSchemas_shows hunique, fun hrowsB hrowsP => ?_⟩
  exact joinSides_outer (build.batches_ne hrowsB) (probe.batches_ne hrowsP)
    (readsMissingRow_of_rows hrowsB hrowsP) hunique

end Batches

section Examples

attribute [local instance] textCells

def keyedTable (names : List Str) (rows : List (Row Str))
    (hkey : Schema.indexOf (names.map fun name => ⟨name, .utf8, true⟩) "k" =
      some 0)
    (hrows : ∀ row ∈ rows, row.length = names.length) : JoinInput Str where
  batches := [⟨names.map fun name => ⟨name, .utf8, true⟩, rows, fun row hrow =>
    rowFits_nullable (by simp) (by simpa using hrows row hrow)⟩]
  schema := names.map fun name => ⟨name, .utf8, true⟩
  key := "k"
  keyAt := 0
  sameSchema := by simp
  keyFound := hkey

def keyRow (key cell : Option String) : Row Str :=
  [key.map String.toList, cell.map String.toList]

theorem hostColumns_key :
    Schema.indexOf ((["k", "host"] : List Str).map fun name =>
    ⟨name, .utf8, true⟩) "k" = some 0 := by decide

def hostsTable : JoinInput Str :=
  keyedTable ["k", "host"] [keyRow (some "1") (some "web"),
    keyRow (some "2") (some "db"), keyRow none (some "cache")] hostColumns_key
    (by decide)

theorem alertColumns_key :
    Schema.indexOf ((["k", "alert"] : List Str).map fun name =>
    ⟨name, .utf8, true⟩) "k" = some 0 := by decide

def alertsTable : JoinInput Str :=
  keyedTable ["k", "alert"] [keyRow (some "1") (some "disk"),
    keyRow (some "1") (some "load"), keyRow (some "3") (some "ping")]
    alertColumns_key (by decide)

def twoKeysTable : JoinInput Str :=
  keyedTable ["k", "k"] [keyRow (some "1") (some "1")] (by decide) (by decide)

theorem hosts_alerts_joined : ∃ out, ∃ pairs : List (RowPair Str),
    hashJoin hostsTable.batches "k" alertsTable.batches "k" .full = .ok [out] ∧
      pairs.Perm (referencePairs (sameValue 0 0) .full hostsTable.rows
        alertsTable.rows) ∧
      out.rows = pairs.map (outputRow .full hostsTable alertsTable) :=
  (hashJoin_reference (by decide) (by decide) fun _ _ _ _ h => h).1
    (by change JoinInput.KeyUnique _; decide)

/-- Two columns of the probed side are called as the key: the fields of both
are left out and the cells of one. -/
theorem ambiguous_key_fails :
    hashJoin hostsTable.batches "k" twoKeysTable.batches "k" .inner =
        RecordBatch.arrowError Str .columnCount ∧
      referencePairs (sameValue 0 0) .inner hostsTable.rows twoKeysTable.rows =
        [(some (keyRow (some "1") (some "web")),
          some (keyRow (some "1") (some "1")))] := by
  decide +kernel

theorem host_alert_names_distinct :
    (mergeSchemas hostsTable.schema alertsTable.schema
    alertsTable.key .full).names.Nodup := by
  refine ((joined_names_distinct_iff (by decide) (by decide)).mpr ?_).1
  unfold RenamesApart
  decide

/-- The column `x` of the probed side gets a name that the other side has. -/
theorem renamed_column_collides :
    ¬(mergeSchemas [⟨"k", .utf8, true⟩, ⟨"x", .utf8, true⟩,
      ⟨"probe_x", .utf8, true⟩]
      [⟨"k", .utf8, true⟩, ⟨"x", .utf8, true⟩] "k" .inner).names.Nodup := by
    decide

end Examples

end Fuse.Engine
