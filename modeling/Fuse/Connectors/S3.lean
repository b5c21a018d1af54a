import Fuse.Connectors.Partition
import Fuse.Core.Arrow
import Fuse.Foundation.Chunks

/-!
# Parquet files in S3

`S3ParquetConnector::execute` of `fuse-connectors/s3/src/lib.rs`: the files of
a table that survive pruning are read piece by piece, and the limit is applied
to the pieces.  A batch remembers the file rows it shows, so that one can ask
which rows were returned whatever columns are projected.
-/

namespace Fuse.Connectors.S3

open Foundation Fuse.Core List

structure ParquetFile (V : Type) where
  columns : List Str
  rowGroups : List (List (Row V))

structure Object (V : Type) where
  key : Str
  file : ParquetFile V

structure S3ParquetConnector (V : Type) where
  keyPrefix : Str
  objects : List (Object V)

def defaultBatchSize : Nat := 8192

/-- `trim_end_matches` of a text, one match for each unit of fuel. -/
def trimEndMatches (pattern : Str) : Nat → Str → Str
  | 0, s => s
  | fuel + 1, s =>
    if Str.endsWith pattern s then
      trimEndMatches pattern fuel (s.take (s.length - pattern.length))
    else s

def keyToTableName (key start : Str) : Str :=
  let stripped := (Str.stripStart start key).getD key
  let stripped := (Str.stripStart "/" stripped).getD stripped
  let segment := (Str.splitBy (· = '/') stripped).head?.getD stripped
  let segment := trimEndMatches ".parquet" segment.length segment
  trimEndMatches ".parq" segment.length segment

section Reading

variable {V : Type}

structure ReadBatch (V : Type) where
  key : Str
  columns : List Str
  shown : List Nat
  rows : List (Row V)

def ReadBatch.numRows (batch : ReadBatch V) : Nat := batch.rows.length

def ReadBatch.slice (offset length : Nat) (batch : ReadBatch V) : ReadBatch V :=
  { batch with rows := (batch.rows.drop offset).take length }

/-- Projections that name no column of the file are dropped; if none is left,
all columns are shown. -/
def projectionMask (columns projections : List Str) : List Nat :=
  let indices := projections.filterMap fun name =>
    columns.findIdx? (· = name)
  let all := List.range columns.length
  if projections.isEmpty || indices.isEmpty then all
  else all.filter (· ∈ indices)

def readRowGroup (object : Object V) (projections : List Str)
    (group : List (Row V)) : List (ReadBatch V) :=
  (chunks defaultBatchSize group.length group).map fun rows =>
    { key := object.key
      columns := object.file.columns
      shown := projectionMask object.file.columns projections
      rows }

def readObject (projections : List Str) (object : Object V) :
    List (ReadBatch V) :=
  object.file.rowGroups.flatMap (readRowGroup object projections)

/--
Keep batches while the rows before them are fewer than the limit, then cut the
last one by the excess.  The running total counts the first batch left out as
well.  A cut by more rows than the last batch has is out of bounds.
-/
def applyLimit (limit : Nat) (batches : List (ReadBatch V)) :
    Fallible (List (ReadBatch V)) :=
  let (kept, total) := takeBelow ReadBatch.numRows limit 0 batches
  match kept.getLast? with
  | none => .ok kept
  | some last =>
    let excess := total - limit
    if 0 < excess then
      if last.numRows < excess then Fallible.panic .indexOutOfBounds
      else .ok (kept.dropLast ++ [last.slice 0 (last.numRows - excess)])
    else .ok kept

variable [FloatText] (connector : S3ParquetConnector V)

def S3ParquetConnector.listParquetKeys : List (Object V) :=
  connector.objects.filter fun object =>
    Str.startsWith connector.keyPrefix object.key &&
      (Str.endsWith ".parquet" object.key || Str.endsWith ".parq" object.key)

def S3ParquetConnector.tableObjects (table : Str) : List (Object V) :=
  connector.listParquetKeys.filter fun object =>
    keyToTableName object.key connector.keyPrefix = table

def mayMatch (filter : Option FilterExpr) (object : Object V) : Bool :=
  match filter with
  | some f => partitionMatches (extractPartitions object.key) f
  | none => true

def S3ParquetConnector.findKeysForTable (table : Str)
    (filter : Option FilterExpr) :
    Except ConnectorError (List (Object V)) :=
  let found := (connector.tableObjects table).filter (mayMatch filter)
  if found.isEmpty then
    .error (.schemaDiscovery ("no Parquet file found for table '" ++
      table ++ "'"))
  else .ok found

def S3ParquetConnector.execute (query : SubQuery) :
    Fallible (Except ConnectorError (List (ReadBatch V))) :=
  match connector.findKeysForTable query.table query.filter with
  | .error e => .ok (.error e)
  | .ok objects =>
    let batches := objects.flatMap (readObject query.projections)
    match query.limit with
    | some limit => do return .ok (← applyLimit limit batches)
    | none => .ok (.ok batches)

end Reading

section Rows

variable {V : Type}

structure FileRow (V : Type) where
  key : Str
  columns : List Str
  row : Row V

def ReadBatch.fileRows (batch : ReadBatch V) : List (FileRow V) :=
  batch.rows.map fun row => ⟨batch.key, batch.columns, row⟩

def fileRows (batches : List (ReadBatch V)) : List (FileRow V) :=
  batches.flatMap ReadBatch.fileRows

def Object.fileRows (object : Object V) : List (FileRow V) :=
  object.file.rowGroups.flatten.map fun row =>
    ⟨object.key, object.file.columns, row⟩

@[simp] theorem ReadBatch.length_fileRows (batch : ReadBatch V) :
    batch.fileRows.length = batch.numRows := length_map _

@[simp] theorem fileRows_append (as bs : List (ReadBatch V)) :
    fileRows (as ++ bs) = fileRows as ++ fileRows bs := flatMap_append

@[simp] theorem fileRows_singleton (batch : ReadBatch V) :
    fileRows [batch] = batch.fileRows := flatMap_singleton ..

theorem length_fileRows (batches : List (ReadBatch V)) :
    (fileRows batches).length = (batches.map ReadBatch.numRows).sum := by
  rw [fileRows, length_flatMap]
  simp

theorem fileRows_slice (batch : ReadBatch V) (n : Nat) :
    (batch.slice 0 n).fileRows = batch.fileRows.take n := by
  simp [ReadBatch.slice, ReadBatch.fileRows, map_take]

theorem fileRows_readObject (projections : List Str) (object : Object V) :
    fileRows (readObject projections object) = object.fileRows := by
  have hgroup : ∀ group : List (Row V),
    fileRows (readRowGroup object projections group) =
        group.map fun row => ⟨object.key, object.file.columns, row⟩ := by
    intro group
    have hpieces : (chunks defaultBatchSize group.length group).flatten =
        group := flatten_chunks (by decide) (le_refl _)
    conv_rhs => rw [← hpieces]
    simp only [fileRows, readRowGroup, flatMap_map, map_flatten]
    rfl
  rw [fileRows, readObject, flatMap_assoc, Object.fileRows, map_flatten,
    ← flatMap_def]
  exact flatMap_congr fun group _ => hgroup group

theorem take_fileRows {init rest : List (ReadBatch V)} {last : ReadBatch V}
    {m : Nat} (hle : (init.map ReadBatch.numRows).sum ≤ m)
    (hm : m ≤ (init.map ReadBatch.numRows).sum + last.numRows) :
    (fileRows (init ++ last :: rest)).take m = fileRows init ++
      last.fileRows.take (m - (init.map ReadBatch.numRows).sum) := by
  have hsplit : fileRows (last :: rest) = last.fileRows ++ fileRows rest :=
    flatMap_cons
  rw [← length_fileRows] at hle hm ⊢
  rw [fileRows_append, hsplit, take_append, take_of_length_le hle,
    take_append_of_le_length]
  rw [ReadBatch.length_fileRows]
  omega

section Limit

variable {limit : Nat} {batches : List (ReadBatch V)}

private theorem applyLimit_zero (batches : List (ReadBatch V)) :
    applyLimit 0 batches = .ok [] := by
  rw [applyLimit, takeBelow_of_le _ (le_refl 0)]
  rfl

theorem applyLimit_kept
    (h : limit = 0 ∨ before ReadBatch.numRows limit batches +
      following ReadBatch.numRows limit batches ≤ limit) :
    ∃ kept, applyLimit limit batches = .ok kept ∧
      fileRows kept = (fileRows batches).take
        (limit - following ReadBatch.numRows limit batches) := by
  rcases Nat.eq_zero_or_pos limit with rfl | hpos
  · exact ⟨[], applyLimit_zero batches, by simp [fileRows]⟩
  have hin := h.resolve_left hpos.ne'
  unfold applyLimit
  rcases takeBelow_spec ReadBatch.numRows hpos batches with
    ⟨htake, hsum⟩ | ⟨init, last, rest, rfl, hbelow, hreached, hbefore, htake⟩
  · -- the limit is not reached
    have hnext : following ReadBatch.numRows limit batches = 0 := by
      by_contra hne
      have := le_sum_of_following _ hne
      omega
    refine ⟨batches, ?_, ?_⟩
    · rw [htake]
      dsimp only
      split
      · rfl
      · rw [if_neg (by omega)]
    · rw [hnext, take_of_length_le]
      rw [length_fileRows]
      omega
  · rw [Nat.sub_zero] at hbefore htake
    rw [hbefore] at hin
    generalize following ReadBatch.numRows limit (init ++ last :: rest) =
      next at *
    rw [htake]
    simp only [getLast?_append, getLast?_singleton, Option.some_or,
      dropLast_concat, zero_add] at *
    split
    · rw [if_neg (by omega)]
      refine ⟨_, rfl, ?_⟩
      rw [fileRows_append, fileRows_singleton, fileRows_slice,
        take_fileRows (by omega) (by omega)]
      congr 2
      omega
    · -- the batches kept end where the limit does
      refine ⟨_, rfl, ?_⟩
      rw [take_fileRows (by omega) (by omega), take_of_length_le,
        fileRows_append, fileRows_singleton]
      rw [ReadBatch.length_fileRows]
      omega

theorem applyLimit_panics (hlimit : limit ≠ 0)
    (h : limit < before ReadBatch.numRows limit batches +
      following ReadBatch.numRows limit batches) :
    applyLimit limit batches = Fallible.panic .indexOutOfBounds := by
  have hle := before_le ReadBatch.numRows limit batches
  unfold applyLimit
  rcases takeBelow_spec ReadBatch.numRows
      (Nat.pos_of_ne_zero hlimit) batches with
    ⟨-, hsum⟩ | ⟨init, last, rest, rfl, hbelow, hreached, hbefore, htake⟩
  · have hne : following ReadBatch.numRows limit batches ≠ 0 := by omega
    have := le_sum_of_following _ hne
    omega
  · rw [Nat.sub_zero] at hbefore htake
    rw [hbefore] at h
    rw [htake]
    simp only [getLast?_append, getLast?_singleton, Option.some_or, zero_add]
    rw [if_pos (by omega), if_pos (by omega)]

end Limit

/--
A limit keeps exactly the first rows unless a batch with rows comes after the
one in which it is reached: that batch is counted too, and the cut too deep.
-/
theorem applyLimit_exact_iff (limit : Nat) (batches : List (ReadBatch V)) :
    (∃ kept, applyLimit limit batches = .ok kept ∧
      fileRows kept = (fileRows batches).take limit) ↔
    limit = 0 ∨ following ReadBatch.numRows limit batches = 0 := by
  have hle := before_le ReadBatch.numRows limit batches
  constructor
  · rintro ⟨kept, hkept, hrows⟩
    by_contra hne
    rw [not_or] at hne
    have htotal := le_sum_of_following ReadBatch.numRows hne.2
    by_cases hbounds : before ReadBatch.numRows limit batches +
        following ReadBatch.numRows limit batches ≤ limit
    · obtain ⟨cut, hcut, hcutRows⟩ := applyLimit_kept (.inr hbounds)
      cases Except.ok.inj (hkept.symm.trans hcut)
      have hlength := congrArg List.length (hrows.symm.trans hcutRows)
      rw [length_take, length_take, length_fileRows] at hlength
      omega
    · rw [applyLimit_panics hne.1 (not_le.mp hbounds)] at hkept
      cases hkept
  · intro h
    have hbounds : limit = 0 ∨ before ReadBatch.numRows limit batches +
        following ReadBatch.numRows limit batches ≤ limit := by omega
    obtain ⟨kept, hkept, hrows⟩ := applyLimit_kept hbounds
    refine ⟨kept, hkept, hrows.trans ?_⟩
    rcases h with rfl | h <;> simp [*]

def blankRows (n : Nat) : ReadBatch Nat := ⟨[], [], [], List.replicate n []⟩

/-- `LIMIT 1` loses the row of the first of two batches, and goes out of
bounds if the second has two rows. -/
theorem limit_cuts_too_deep :
    (∃ kept, applyLimit 1 [blankRows 1, blankRows 1] = .ok kept ∧
      fileRows kept = []) ∧ applyLimit 1 [blankRows 1, blankRows 2] =
        Fallible.panic .indexOutOfBounds :=
  ⟨⟨_, rfl, rfl⟩, rfl⟩

end Rows

section Honoured

variable {V C : Type} [Unicode] [FloatText] (M : CellModel C)
  (reading : FileRow V → Str → C)
  (connector : S3ParquetConnector V) (query : SubQuery)

def satisfies (filter : Option FilterExpr) (row : FileRow V) : Bool :=
  match filter with
  | some f => M.filterTruth (reading row) f = .tt
  | none => true

def satisfying : List (FileRow V) :=
  ((connector.tableObjects query.table).flatMap Object.fileRows).filter
    (satisfies M reading query.filter)

/-- Rows returned satisfy the filter, and under a limit there are as many as
the limit allows. -/
def Honours (batches : List (ReadBatch V)) : Prop :=
  (∀ row ∈ fileRows batches, satisfies M reading query.filter row = true) ∧
    ∀ n, query.limit = some n → (fileRows batches).length =
      min n (satisfying M reading connector query).length

def survivors : List (Object V) :=
  (connector.tableObjects query.table).filter (mayMatch query.filter)

def pieces : List (List (Row V)) :=
  (survivors connector query).flatMap fun object =>
    object.file.rowGroups.flatMap fun group =>
      chunks defaultBatchSize group.length group

def survivingRows : List (FileRow V) :=
  (survivors connector query).flatMap Object.fileRows

/-- The rows a limit keeps: those of the piece after the one in which the
limit is reached are counted against it. -/
def keptUnder (n : Nat) : Nat :=
  n - following List.length n (pieces connector query)

/-- The rows read satisfy the filter as far as they are returned, and the
limit is counted out right. -/
def ReadsAsAsked : Prop :=
  match query.limit with
  | none => ∀ row ∈ survivingRows connector query,
              satisfies M reading query.filter row = true
  | some n =>
    (n = 0 ∨ before List.length n (pieces connector query) +
      following List.length n (pieces connector query) ≤ n) ∧
    (∀ row ∈ (survivingRows connector query).take (keptUnder connector query n),
      satisfies M reading query.filter row = true) ∧
    min (keptUnder connector query n) (survivingRows connector query).length =
      min n (satisfying M reading connector query).length

variable {connector query}

def readBatches (connector : S3ParquetConnector V) (query : SubQuery) :
    List (ReadBatch V) :=
  (survivors connector query).flatMap (readObject query.projections)

omit [Unicode] in
theorem execute_eq (h : survivors connector query ≠ []) :
    connector.execute query = match query.limit with
      | some limit => do
          return .ok (← applyLimit limit (readBatches connector query))
      | none => .ok (.ok (readBatches connector query)) := by
  have hfound : connector.findKeysForTable query.table query.filter =
      .ok (survivors connector query) := by
    rw [S3ParquetConnector.findKeysForTable]
    exact if_neg (by rwa [← survivors, List.isEmpty_iff])
  rw [S3ParquetConnector.execute, hfound]
  rfl

omit [Unicode] in
theorem execute_nothing (h : survivors connector query = []) :
    ∃ e, connector.execute query = .ok (.error e) := by
  have hfound : ∃ e, connector.findKeysForTable query.table query.filter =
      .error e := by
    rw [S3ParquetConnector.findKeysForTable]
    exact ⟨_, if_pos (by rw [← survivors, h]; rfl)⟩
  obtain ⟨e, he⟩ := hfound
  exact ⟨e, by rw [S3ParquetConnector.execute, he]⟩

omit [Unicode] in
theorem fileRows_readBatches :
    fileRows (readBatches connector query) = survivingRows connector query := by
  rw [readBatches, fileRows, flatMap_assoc]
  exact flatMap_congr fun object _ =>
    fileRows_readObject query.projections object

omit [Unicode] in
theorem rows_readBatches :
    (readBatches connector query).map ReadBatch.rows =
      pieces connector query := by
  simp only [readBatches, pieces, readObject, readRowGroup, map_flatMap,
    map_map, Function.comp_def, map_id']

omit [Unicode] in
theorem following_readBatches (n : Nat) :
    following ReadBatch.numRows n (readBatches connector query) =
      following List.length n (pieces connector query) := by
  rw [← rows_readBatches, following_map]
  rfl

omit [Unicode] in
private theorem before_readBatches (n : Nat) :
    before ReadBatch.numRows n (readBatches connector query) =
      before List.length n (pieces connector query) := by
  rw [← rows_readBatches, before_map]
  rfl

/-- The clause is honoured under a limit exactly if the cut is in bounds and
keeps as many rows as it should, all of them matches. -/
theorem limited_honours_iff {n : Nat} (hlimit : query.limit = some n) :
    (∃ batches, applyLimit n (readBatches connector query) = .ok batches ∧
      Honours M reading connector query batches) ↔
    ReadsAsAsked M reading connector query := by
  rw [ReadsAsAsked, hlimit]
  dsimp only
  rw [← following_readBatches, ← before_readBatches]
  have hkeeps : keptUnder connector query n =
      n - following ReadBatch.numRows n (readBatches connector query) := by
    rw [keptUnder, following_readBatches]
  constructor
  · rintro ⟨batches, hbatches, hmatch, hcount⟩
    have hbounds : n = 0 ∨ before ReadBatch.numRows n
        (readBatches connector query) + following ReadBatch.numRows n
          (readBatches connector query) ≤ n := by
      by_contra hout
      rw [not_or, not_le] at hout
      rw [applyLimit_panics hout.1 hout.2] at hbatches
      cases hbatches
    obtain ⟨kept, hkept, hrows⟩ := applyLimit_kept hbounds
    obtain rfl : batches = kept := Except.ok.inj (hbatches.symm.trans hkept)
    rw [← hkeeps, fileRows_readBatches] at hrows
    have hlength := hcount n hlimit
    rw [hrows] at hmatch hlength
    rw [length_take] at hlength
    exact ⟨hbounds, hmatch, hlength⟩
  · rintro ⟨hbounds, hmatch, hcount⟩
    obtain ⟨kept, hkept, hrows⟩ := applyLimit_kept hbounds
    rw [← hkeeps, fileRows_readBatches] at hrows
    refine ⟨kept, hkept, ?_, ?_⟩
    · rw [hrows]
      exact hmatch
    · intro m hm
      obtain rfl : n = m := Option.some.inj (hlimit.symm.trans hm)
      rw [hrows, length_take]
      exact hcount

/-- The rows returned are matches, as many as the limit allows, exactly if a
file survives pruning and what is read of the survivors is as asked. -/
theorem execute_honours_where_iff (connector : S3ParquetConnector V)
    (query : SubQuery) :
    (∃ batches, connector.execute query = .ok (.ok batches) ∧
      Honours M reading connector query batches) ↔
    survivors connector query ≠ [] ∧
        ReadsAsAsked M reading connector query := by
  by_cases hnone : survivors connector query = []
  · obtain ⟨e, he⟩ := execute_nothing hnone
    refine iff_of_false ?_ fun h => h.1 hnone
    rintro ⟨batches, hbatches, -⟩
    cases he.symm.trans hbatches
  · rw [and_iff_right hnone, execute_eq hnone]
    cases hlimit : query.limit with
    | none =>
      rw [ReadsAsAsked, hlimit]
      dsimp only
      rw [← fileRows_readBatches]
      constructor
      · rintro ⟨batches, hbatches, hmatch, -⟩
        cases hbatches
        exact hmatch
      · intro hmatch
        refine ⟨_, rfl, hmatch, fun n hn => ?_⟩
        cases hlimit.symm.trans hn
    | some n =>
      rw [← limited_honours_iff M reading hlimit]
      refine exists_congr fun batches => and_congr_left fun _ => ?_
      dsimp only
      generalize applyLimit n (readBatches connector query) = cut
      cases cut with
      | ok kept =>
        constructor
        · intro h
          cases h
          rfl
        · intro h
          cases h
          rfl
      | error f => exact iff_of_false nofun nofun

end Honoured

section Sample

attribute [local instance] asciiUnicode integersOnly

def statusFile (key : Str) (codes : List Int64) : Object ScalarValue where
  key
  file :=
    { columns := ["status".toList]
      rowGroups := codes.map fun code => [[some (.int64 code)]] }

def cellNamed (row : FileRow ScalarValue) (name : Str) : ScalarValue :=
  ((row.columns.findIdx? (· = name)).bind fun i => row.row[i]?.join).getD .null

/-- `status = 500` returns a row with status 200, and `LIMIT 1` over two rows
of two row groups returns none. -/
theorem where_returns_other_rows :
    letI : FloatText := ⟨fun _ => []⟩
    let connector (codes : List Int64) : S3ParquetConnector ScalarValue :=
      ⟨[], [statusFile "logs/part-0.parquet" codes]⟩
    let failed : SubQuery :=
      { table := "logs"
        filter := some (.comparison "status" .eq (.int64 500)) }
    let first : SubQuery := { table := "logs", limit := some 1 }
    (∃ batches, (connector [200]).execute failed = .ok (.ok batches) ∧
      ∃ row ∈ fileRows batches,
      satisfies typedCells cellNamed failed.filter row = false) ∧
    (∃ batches, (connector [200, 500]).execute first = .ok (.ok batches) ∧
      (satisfying typedCells cellNamed (connector [200, 500]) first).length =
        2 ∧ (fileRows batches).length = 0) := by
  refine ⟨⟨_, rfl, ?_⟩, ⟨_, rfl, ?_, ?_⟩⟩
  · exact ⟨_, mem_cons_self .., by decide +kernel⟩
  · decide +kernel
  · decide +kernel

end Sample

end Fuse.Connectors.S3
