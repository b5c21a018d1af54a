import Fuse.Engine.ReferenceJoin

/-!
# Outer joins

What becomes of the rows that an outer or an anti join preserves.  On an empty
side there is no row to gather NULLs from and no schema to take columns from;
and of a row without a partner the key column is left out, so its key is lost.
-/

namespace Fuse.Engine

open Foundation Fuse.Core List

inductive JoinPlace where
  | build | probe
  deriving DecidableEq, Repr

def JoinType.preserves : JoinType → JoinPlace → Bool
  | .left, .probe => true
  | .right, .build => true
  | .full, _ => true
  | .anti, .probe => true
  | _, _ => false

section EmptySide

variable {V : Type} [ArrowKernels V]

def joinKeeping (place : JoinPlace) (kept other : JoinInput V)
    (joinType : JoinType) : Fallible (List (RecordBatch V)) :=
  match place with
  | .build =>
    hashJoin kept.batches kept.key other.batches other.key joinType
  | .probe =>
    hashJoin other.batches other.key kept.batches kept.key joinType

def loneRow (place : JoinPlace) (kept other : JoinInput V)
    (joinType : JoinType) (row : Row V) : Row V :=
  match place with
  | .build => outputRow joinType kept other (some row, none)
  | .probe => outputRow joinType other kept (none, some row)

variable {joinType : JoinType} {build probe : JoinInput V}

theorem joinSides_nil (h : build.batches = [] ∨ probe.batches = []) :
    joinSides build.batches build.key probe.batches probe.key joinType =
      .ok [] := by
  rcases h with h | h
  · rw [h]
    rfl
  · rw [h]
    cases build.batches <;> rfl

theorem joinSides_missing (hbuild : build.batches ≠ [])
    (hprobe : probe.batches ≠ []) (htype : joinType ≠ .semi ∧ joinType ≠ .anti)
    (hreads : readsMissingRow joinType build probe = true) :
    joinSides build.batches build.key probe.batches probe.key joinType =
      Fallible.panic .indexOutOfBounds := by
  rw [joinSides_eq joinType build probe hbuild hprobe,
    if_neg (by simpa using htype), if_pos hreads]

theorem probeRow_nil (htype : joinType.keepsUnmatched = true)
    (buildKey probeKey index : Nat)
    (row : Row V) : probeRow joinType buildKey probeKey [] index row =
      [(none, some index)] := by
  unfold probeRow
  cases keyText probeKey row <;> simp [matchingRows, htype]

theorem tablePairs_nil_build (hempty : build.rows = [])
    (htype : joinType.keepsUnmatched = true) :
    tablePairs joinType build probe = probe.rows.zipIdx.map fun row =>
    (none, some row.2) := by
  have hrows : (probe.rows.zipIdx.map fun row =>
      probeRow joinType build.keyAt probe.keyAt [] row.2 row.1).flatten =
      probe.rows.zipIdx.map fun row => (none, some row.2) := by
    simp [probeRow_nil htype, ← flatMap_def, ← map_eq_flatMap]
  rw [tablePairs, joinPairs, hempty]
  simp [hrows, unmatchedBuild]

theorem tableRowPairs_nil_build (hempty : build.rows = [])
    (htype : joinType.keepsUnmatched = true) :
    tableRowPairs joinType build probe = probe.rows.map fun p =>
    (none, some p) := by
  rw [tableRowPairs, tablePairs_nil_build hempty htype, map_map]
  conv_rhs => rw [← zipIdx_map_fst 0 probe.rows, map_map]
  refine map_congr_left fun row hrow => ?_
  simp [rowPair, mem_zipIdx_iff_getElem?.mp hrow]

theorem readsMissingRow_nil_build (hempty : build.rows = [])
    (hprobe : probe.rows ≠ []) (htype : joinType.keepsUnmatched = true) :
    readsMissingRow joinType build probe = true := by
  obtain ⟨p, ps, hp⟩ := exists_cons_of_ne_nil hprobe
  simp [readsMissingRow, tablePairs_nil_build hempty htype, hp, hempty]

theorem tablePairs_nil_probe (hempty : probe.rows = []) :
    tablePairs .full build probe = (List.range build.rows.length).map fun b =>
    (some b, none) := by
  simp [tablePairs, joinPairs, unmatchedBuild, hempty]

theorem tableRowPairs_nil_probe (hempty : probe.rows = []) :
    tableRowPairs .full build probe = build.rows.map fun b =>
    (some b, none) := by
  rw [tableRowPairs, tablePairs_nil_probe hempty, map_map]
  have hrange : ((List.range build.rows.length).filter fun _ => true).map
      (rowPair build.rows probe.rows ∘ fun b => (some b, none)) =
      (build.rows.filter fun _ => true).map fun b => (some b, none) :=
    map_filter_range build.rows _ (fun _ _ => rfl)
      (fun b hb => by simp [rowPair, getElem?_eq_getElem hb])
  simpa using hrange

theorem readsMissingRow_nil_probe (hempty : probe.rows = [])
    (hbuild : build.rows ≠ []) : readsMissingRow .full build probe =
      decide (probe.schema.length ≠ 1) := by
  have hlt := probe.keyAt_lt
  obtain ⟨b, bs, hb⟩ := exists_cons_of_ne_nil hbuild
  have hskip : (skipColumn probe.keyAt probe.schema).isEmpty =
      decide (probe.schema.length = 1) := by
    rw [Bool.eq_iff_iff, List.isEmpty_iff, decide_eq_true_iff,
      ← List.length_eq_zero_iff, skipColumn, List.length_eraseIdx, if_pos hlt]
    omega
  have hsome : build.rows.isEmpty = false := by simp [hb]
  have hany : (tablePairs .full build probe).any (·.2 = none) = true := by
    rw [tablePairs_nil_probe hempty, hb, length_cons, range_succ_eq_map]
    simp
  simp [readsMissingRow, hsome, hany, hempty, hskip]

omit [ArrowKernels V] in
theorem keyUnique_of_length (h : probe.schema.length = 1) :
    probe.KeyUnique := by
  have hlt := probe.keyAt_lt
  have hname := (findIdx?_eq_some_iff_getElem.mp probe.keyFound).2.1
  obtain ⟨f, hf⟩ := length_eq_one_iff.mp h
  simp only [hf, length_singleton, Nat.lt_one_iff] at hlt
  simp only [hlt, hf, getElem_singleton, decide_eq_true_eq] at hname
  simp [JoinInput.KeyUnique, hf, hname]

omit [ArrowKernels V] in
private theorem perm_nil_of_kept {kept : List (Row V)} {f : Row V → Row V}
    (hkept : kept ≠ []) : ¬(([] : List (RecordBatch V)).flatMap (·.rows)).Perm
    (kept.map f) := by
  intro hperm
  exact hkept (map_eq_nil_iff.mp hperm.symm.eq_nil)

/--
A join type that preserves a side gives every row of it once, beside an empty
side, only if the empty side has batches and the join is an anti join, or a full
join whose probe side is the empty one and has no column but the key.
-/
theorem outer_join_survives_iff {place : JoinPlace} {kept other : JoinInput V}
    (htype : joinType.preserves place = true) (hkept : kept.rows ≠ [])
    (hother : other.rows = []) :
    (∃ out, joinKeeping place kept other joinType = .ok out ∧
      (out.flatMap (·.rows)).Perm
        (kept.rows.map (loneRow place kept other joinType))) ↔
    other.batches ≠ [] ∧ (joinType = .anti ∨
      joinType = .full ∧ place = .build ∧ other.schema.length = 1) := by
  by_cases hnil : other.batches = []
  · have hjoin : joinKeeping place kept other joinType = .ok [] := by
      cases joinType <;> cases place <;> cases htype <;> first
        | exact joinSides_nil (.inl hnil)
        | exact joinSides_nil (.inr hnil)
    simp only [hjoin, hnil, ne_eq, not_true_eq_false, false_and, iff_false]
    rintro ⟨out, ⟨⟩, hperm⟩
    exact perm_nil_of_kept hkept hperm
  · have hbatches := kept.batches_ne hkept
    have hpanic : ∀ t : JoinType, t.keepsUnmatched = true →
        t ≠ .semi ∧ t ≠ .anti →
        ¬∃ out, joinSides other.batches other.key kept.batches kept.key t =
          .ok out ∧
          (out.flatMap (·.rows)).Perm
          (kept.rows.map (loneRow place kept other joinType)) := by
      rintro t hunmatched ht ⟨out, hout, -⟩
      rw [joinSides_missing hnil hbatches ht
        (readsMissingRow_nil_build hother hkept hunmatched)] at hout
      cases hout
    cases joinType with
    | inner | semi => cases htype
    | left =>
      cases place with
      | build => cases htype
      | probe => simpa [joinKeeping, hashJoin] using hpanic .left rfl (by simp)
    | right =>
      cases place with
      | probe => cases htype
      | build => simpa [joinKeeping, hashJoin] using hpanic .left rfl (by simp)
    | anti =>
      cases place with
      | build => cases htype
      | probe =>
        obtain ⟨out, hout, hrows⟩ :=
          joinSides_rightOnly hnil hbatches (.inr rfl)
        refine iff_of_true ⟨[out], hout, ?_⟩ ⟨hnil, .inl rfl⟩
        rw [flatMap_singleton, hrows, tableRowPairs_nil_build hother rfl,
          map_map]
        exact .refl _
    | full =>
      cases place with
      | probe => simpa [joinKeeping, hashJoin] using hpanic .full rfl (by simp)
      | build =>
        have hreads := readsMissingRow_nil_probe hother hkept
        by_cases hlength : other.schema.length = 1
        · obtain ⟨out, hout, -, hrows⟩ := joinSides_outer hbatches hnil
            (hreads.trans (by simp [hlength])) (keyUnique_of_length hlength)
              (.inr (.inr rfl))
          refine iff_of_true ⟨[out], hout, ?_⟩ ⟨hnil, .inr ⟨rfl, rfl, hlength⟩⟩
          rw [flatMap_singleton, hrows, tableRowPairs_nil_probe hother, map_map]
          exact .refl _
        · refine iff_of_false ?_ (by simp [hlength])
          rintro ⟨out, hout, -⟩
          have hmissing := joinSides_missing hbatches hnil (by simp)
            (hreads.trans (by simp [hlength]))
          cases hmissing.symm.trans hout

end EmptySide

section Cells

variable {V : Type} [ArrowKernels V]

def ReadOff (place : Nat → Nat) (row : Option (Row V)) (out : Row V) : Prop :=
  ∀ r ∈ row, ∀ c < r.length, out[place c]? = r[c]?

/-- The place of a column of the side that is probed: behind the other side's
columns, and in the place of the other key for the key. -/
def placeBehind (first second : JoinInput V) (c : Nat) : Nat :=
  if c = second.keyAt then first.keyAt
  else if c < second.keyAt then first.schema.length + c
  else first.schema.length + (c - 1)

def PreservedReadOff (joinType : JoinType) (build probe : JoinInput V)
    (pair : RowPair V) (out : Row V) : Prop :=
  match joinType with
  | .left => ReadOff (placeBehind build probe) pair.2 out
  | .right => ReadOff (placeBehind probe build) pair.1 out
  | .full =>
    ReadOff id pair.1 out ∧ ReadOff (placeBehind build probe) pair.2 out
  | _ => True

/-- Every row of `second` that has a key has partners, and they have the same
key cell. -/
def KeysShared (first second : JoinInput V) : Prop :=
  ∀ r ∈ second.rows, (r[second.keyAt]?.join).isSome →
    (∃ q ∈ first.rows, sameKey first.keyAt second.keyAt q r = true) ∧
    ∀ q ∈ first.rows, sameKey first.keyAt second.keyAt q r = true →
      q[first.keyAt]? = r[second.keyAt]?

variable {first second : JoinInput V}

variable {pair : RowPair V}

omit [ArrowKernels V] in
theorem readOff_first : ReadOff id pair.1 (sideBySide first second pair) := by
  intro r hr c hc
  have hcells : first.cells pair.1 = r := by
    rw [Option.mem_def.mp hr]
    rfl
  rw [sideBySide, hcells, id, getElem?_append_left hc]

omit [ArrowKernels V] in
theorem getElem?_cells_none {c : Nat} (hc : c < first.schema.length) :
    (first.cells none)[c]? = some none := by simp [JoinInput.cells, hc]

omit [ArrowKernels V] in
theorem sideBySide_behind {r : Row V} (hr : pair.2 = some r)
    (hfirst : ∀ q ∈ pair.1, q ∈ first.rows) {c : Nat} (hc : c ≠ second.keyAt) :
    (sideBySide first second pair)[placeBehind first second c]? = r[c]? := by
  have hlength := JoinInput.length_cells hfirst
  have hcells : second.cells pair.2 = r := by
    rw [hr]
    rfl
  rw [sideBySide, placeBehind, if_neg hc, hcells, skipColumn]
  split
  · rename_i hlt
    rw [getElem?_append_right (by omega), hlength,
      getElem?_eraseIdx_of_lt (by omega)]
    congr 1
    omega
  · rename_i hge
    rw [getElem?_append_right (by omega), hlength,
      getElem?_eraseIdx_of_ge (by omega)]
    congr 1
    omega

omit [ArrowKernels V] in
theorem sideBySide_key (hfirst : ∀ q ∈ pair.1, q ∈ first.rows) :
    (sideBySide first second pair)[placeBehind first second second.keyAt]? =
      (first.cells pair.1)[first.keyAt]? := by
  rw [sideBySide, placeBehind, if_pos rfl, getElem?_append_left]
  rw [JoinInput.length_cells hfirst]
  exact first.keyAt_lt

omit [ArrowKernels V] in
theorem readOff_second_iff {r : Row V} (hr : pair.2 = some r)
    (hfirst : ∀ q ∈ pair.1, q ∈ first.rows) (hsecond : r ∈ second.rows) :
    ReadOff (placeBehind first second) pair.2 (sideBySide first second pair) ↔
      (first.cells pair.1)[first.keyAt]? = r[second.keyAt]? := by
  have hmerged : r ∈ second.merged.rows := hsecond
  have hlength : r.length = second.schema.length :=
    RecordBatch.length_of_mem hmerged
  rw [← sideBySide_key hfirst]
  constructor
  · intro h
    refine h r hr _ ?_
    rw [hlength]
    exact second.keyAt_lt
  · rintro h r' hr' c -
    obtain rfl := Option.some.inj (hr.symm.trans hr')
    by_cases hc : c = second.keyAt
    · rw [hc]
      exact h
    · exact sideBySide_behind hr hfirst hc

/-- All rows of the second side can be read off a left join if their keys are
shared, and only then. -/
theorem left_readOff_iff :
    (∀ pair ∈ referencePairs (sameKey first.keyAt second.keyAt) .left first.rows
      second.rows, ReadOff (placeBehind first second) pair.2
      (sideBySide first second pair)) ↔ KeysShared first second := by
  have hpresent : ∀ r ∈ second.rows, ∃ cell, r[second.keyAt]? = some cell := by
    intro r hr
    have hmerged : r ∈ second.merged.rows := hr
    have hlength : r.length = second.schema.length :=
      RecordBatch.length_of_mem hmerged
    exact ⟨_, getElem?_eq_getElem (hlength ▸ second.keyAt_lt)⟩
  have hmatched : ∀ q r, (some q, some r) ∈ BagJoin.matched
      (sameKey first.keyAt second.keyAt) first.rows second.rows ↔
      q ∈ first.rows ∧ r ∈ second.rows ∧
        sameKey first.keyAt second.keyAt q r = true := by
    intro q r
    simp [BagJoin.matched]
    tauto
  have hlonely : ∀ r, (none, some r) ∈ BagJoin.rightOnly
      (sameKey first.keyAt second.keyAt) first.rows second.rows ↔
      r ∈ second.rows ∧ ∀ q ∈ first.rows,
        sameKey first.keyAt second.keyAt q r = false := by
        simp [BagJoin.rightOnly]
  constructor
  · intro h r hr hkey
    refine ⟨?_, fun q hq hsame => ?_⟩
    · by_contra hnone
      push Not at hnone
      have hall : ∀ q ∈ first.rows, sameKey first.keyAt second.keyAt q r =
          false :=
        fun q hq => Bool.eq_false_iff.mpr (hnone q hq)
      have hread := (readOff_second_iff rfl (by simp) hr).mp
        (h (none, some r) (mem_append_right _ ((hlonely r).mpr ⟨hr, hall⟩)))
      rw [getElem?_cells_none first.keyAt_lt] at hread
      rw [← hread] at hkey
      cases hkey
    · have hmem := (hmatched q r).mpr ⟨hq, hr, hsame⟩
      exact (readOff_second_iff rfl (by simpa using hq) hr).mp
        (h (some q, some r) (mem_append_left _ hmem))
  · intro h pair hpair
    rcases mem_append.mp hpair with hpair | hpair
    · obtain ⟨r, hr, hpair⟩ := mem_flatMap.mp hpair
      obtain ⟨q, hq, rfl⟩ := mem_map.mp hpair
      obtain ⟨hq, hsame⟩ := mem_filter.mp hq
      have hkey : (r[second.keyAt]?.join).isSome := by
        have hsome := (Bool.and_eq_true_iff.mp hsame).1
        rwa [keyText, Option.isSome_map] at hsome
      exact (readOff_second_iff rfl (by simpa using hq) hr).mpr
        ((h r hr hkey).2 q hq hsame)
    · obtain ⟨r, hr, rfl⟩ := mem_map.mp hpair
      obtain ⟨hr, hall⟩ := mem_filter.mp hr
      refine (readOff_second_iff rfl (by simp) hr).mpr ?_
      rw [getElem?_cells_none first.keyAt_lt]
      obtain ⟨cell, hcell⟩ := hpresent r hr
      cases cell with
      | none => exact hcell.symm
      | some v =>
        obtain ⟨q, hq, hsame⟩ := (h r hr (by rw [hcell]; rfl)).1
        have hdiffers := all_eq_true.mp hall q hq
        rw [hsame] at hdiffers
        cases hdiffers

variable {joinType : JoinType} {build probe : JoinInput V}

def KeysKept (joinType : JoinType) (build probe : JoinInput V) : Prop :=
  match joinType with
  | .right => KeysShared probe build
  | _ => KeysShared build probe

private theorem preservedReadOff_iff
    (htype : joinType = .left ∨ joinType = .right ∨ joinType = .full) :
    (∀ pair ∈ referencePairs (sameKey build.keyAt probe.keyAt) joinType
      build.rows probe.rows, PreservedReadOff joinType build probe pair
      (outputRow joinType build probe pair)) ↔
    KeysKept joinType build probe := by
  rcases htype with rfl | rfl | rfl
  · exact left_readOff_iff
  · refine Iff.trans ?_ left_readOff_iff
    have hperm :=
      referencePairs_swap build.keyAt probe.keyAt build.rows probe.rows
    constructor
    · intro h pair hpair
      exact h pair.swap (hperm.mem_iff.mp (mem_map_of_mem hpair))
    · intro h pair hpair
      obtain ⟨swapped, hswapped, rfl⟩ := mem_map.mp (hperm.mem_iff.mpr hpair)
      exact h swapped hswapped
  · refine Iff.trans ?_ left_readOff_iff
    constructor
    · intro h pair hpair
      exact (h pair (mem_append_left _ hpair)).2
    · intro h pair hpair
      refine ⟨readOff_first, ?_⟩
      rcases mem_append.mp hpair with hpair | hpair
      · exact h pair hpair
      · obtain ⟨b, -, rfl⟩ := mem_map.mp hpair
        rintro r ⟨⟩

/--
The cells of the rows that an outer join preserves are all in its output if
and only if the key column that is left out is the only one of its name and
every key in it is also on the other side.
-/
theorem outer_join_keeps_cells_iff
    (htype : joinType = .left ∨ joinType = .right ∨ joinType = .full)
    (hbuild : build.rows ≠ []) (hprobe : probe.rows ≠ []) :
    (∃ out, ∃ pairs : List (RowPair V),
      hashJoin build.batches build.key probe.batches probe.key joinType =
        .ok [out] ∧
      pairs.Perm (referencePairs (sameKey build.keyAt probe.keyAt) joinType
        build.rows probe.rows) ∧
      out.rows = pairs.map (outputRow joinType build probe) ∧
      ∀ pair ∈ pairs, PreservedReadOff joinType build probe pair
        (outputRow joinType build probe pair)) ↔
    DropsOneColumn joinType build probe ∧ KeysKept joinType build probe := by
  rw [← preservedReadOff_iff htype]
  constructor
  · rintro ⟨out, pairs, hout, hperm, -, hread⟩
    refine ⟨?_, fun pair hpair => hread pair (hperm.mem_iff.mpr hpair)⟩
    by_contra hdrops
    have herror := hashJoin_ambiguous hbuild hprobe hdrops
    cases herror.symm.trans hout
  · rintro ⟨hdrops, hread⟩
    obtain ⟨out, pairs, hout, hperm, hrows⟩ :=
      hashJoin_rows hbuild hprobe hdrops
    exact ⟨out, pairs, hout, hperm, hrows, fun pair hpair =>
      hread pair (hperm.mem_iff.mp hpair)⟩

end Cells

section Examples

attribute [local instance] textCells

def emptyHosts : JoinInput Str :=
  keyedTable ["k", "host"] [] hostColumns_key (by decide)

def noHosts : JoinInput Str :=
  { emptyHosts with batches := [], sameSchema := by simp }

theorem anti_join_survives :
    ∃ out, joinKeeping .probe alertsTable emptyHosts .anti = .ok out ∧
      (out.flatMap (·.rows)).Perm
        (alertsTable.rows.map (loneRow .probe alertsTable emptyHosts .anti)) :=
  (outer_join_survives_iff rfl (by decide) rfl).mpr ⟨by decide, .inl rfl⟩

/-- Without batches there is no row, and with batches none that is read. -/
theorem left_join_loses_rows :
    joinKeeping .probe alertsTable noHosts .left = .ok [] ∧
      joinKeeping .probe alertsTable emptyHosts .left =
        Fallible.panic .indexOutOfBounds ∧
      alertsTable.rows.length = 3 := by decide +kernel

def knownAlerts : JoinInput Str :=
  keyedTable ["k", "alert"] [keyRow (some "1") (some "disk"),
    keyRow none (some "load")] alertColumns_key (by decide)

theorem known_alerts_kept : ∃ out, ∃ pairs : List (RowPair Str),
    hashJoin hostsTable.batches "k" knownAlerts.batches "k" .left = .ok [out] ∧
      pairs.Perm (referencePairs (sameKey 0 0) .left hostsTable.rows
        knownAlerts.rows) ∧
      out.rows = pairs.map (outputRow .left hostsTable knownAlerts) ∧
      ∀ pair ∈ pairs, PreservedReadOff .left hostsTable knownAlerts pair
        (outputRow .left hostsTable knownAlerts pair) := by
  refine (outer_join_keeps_cells_iff (.inl rfl) (by decide) (by decide)).mpr
    ⟨?_, ?_⟩
  · change JoinInput.KeyUnique _
    decide
  · change KeysShared hostsTable knownAlerts
    unfold KeysShared
    decide

theorem unmatched_key_lost :
    (hashJoin hostsTable.batches "k" alertsTable.batches "k" .left).map
    (·.flatMap (·.rows)) =
      .ok [["1".toList, "web".toList, "disk".toList].map some,
        ["1".toList, "web".toList, "load".toList].map some,
        [none, none, some "ping".toList]] ∧
      keyRow (some "3") (some "ping") ∈ alertsTable.rows := by decide +kernel

end Examples

end Fuse.Engine
