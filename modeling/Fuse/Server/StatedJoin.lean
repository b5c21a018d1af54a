import Fuse.Engine.ReferenceJoin
import Fuse.Server.TopN

/-!
# The join a query states

`execute_join` asks each source for at most 10000 rows of its table and forms
the inner join of what they return.  The text of the query decides over the
key columns and a time window only: the stated kind of join and its `WHERE`
clause are not read.  The rows are those of the stated join under conditions on
the two tables.
-/

namespace Fuse.Server

open Foundation Fuse.Core Engine List

section Stated

variable {V : Type}

/-! ## Joins of two tables -/

structure JoinTable (V : Type) where
  fetched : List (Row V)
  rest : List (Row V)
  key : Nat
  width : Nat
  outer : Bool

def JoinTable.rows (t : JoinTable V) : List (Row V) := t.fetched ++ t.rest

def matchOn (eq : V → V → Bool) (i j : Nat) (b p : Row V) : Bool :=
  match b[i]?.join, p[j]?.join with
  | some v, some w => eq v w
  | _, _ => false

def matchedRows (eq : V → V → Bool) (i j : Nat) (build probe : List (Row V)) :
    List (Row V) :=
  probe.flatMap fun p =>
    (build.filter (matchOn eq i j · p)).map (· ++ skipColumn j p)

/-- The rows of the first table without a partner, with NULLs for the second. -/
def loneBuildRows (eq : V → V → Bool) (build probe : JoinTable V) :
    List (Row V) :=
  (build.rows.filter fun b =>
    !probe.rows.any (matchOn eq build.key probe.key b ·)).map
      (· ++ List.replicate (probe.width - 1) none)

def loneProbeRows (eq : V → V → Bool) (build probe : JoinTable V) :
    List (Row V) :=
  (probe.rows.filter fun p =>
    !build.rows.any (matchOn eq build.key probe.key · p)).map
      fun p => List.replicate build.width none ++ skipColumn probe.key p

/-- The rows of the join of two tables, under the columns of `hash_join`. -/
def statedJoin (eq : V → V → Bool) (build probe : JoinTable V) : List (Row V) :=
  matchedRows eq build.key probe.key build.rows probe.rows ++
    ((if build.outer then loneBuildRows eq build probe else []) ++
      (if probe.outer then loneProbeRows eq build probe else []))

abbrev fetchedRows (eq : V → V → Bool) (build probe : JoinTable V) :
    List (Row V) :=
  matchedRows eq build.key probe.key build.fetched probe.fetched

def missedRows (eq : V → V → Bool) (build probe : JoinTable V) : List (Row V) :=
  matchedRows eq build.key probe.key build.rest probe.fetched ++
    matchedRows eq build.key probe.key build.rows probe.rest

theorem matchedRows_rows (eq : V → V → Bool) (build probe : JoinTable V) :
    (matchedRows eq build.key probe.key build.rows probe.rows).Perm
      (fetchedRows eq build probe ++ missedRows eq build probe) := by
  have hbuild : ∀ ps : List (Row V),
    (matchedRows eq build.key probe.key build.rows ps).Perm
        (matchedRows eq build.key probe.key build.fetched ps ++
          matchedRows eq build.key probe.key build.rest ps) := by
    intro ps
    simp only [matchedRows, JoinTable.rows, filter_append, map_append]
    exact (flatMap_append_perm _ _ _).symm
  have hprobe : matchedRows eq build.key probe.key build.rows probe.rows =
      matchedRows eq build.key probe.key build.rows probe.fetched ++
        matchedRows eq build.key probe.key build.rows probe.rest :=
    flatMap_append
  rw [hprobe, missedRows, ← append_assoc]
  exact (hbuild _).append_right _

theorem perm_filter_append_iff {α : Type} {w p : α → Bool}
    {kept rest : List α} :
    (kept.filter w).Perm ((kept ++ rest).filter p) ↔
      (∀ x ∈ kept, w x = p x) ∧ ∀ x ∈ rest, p x = false := by
  rw [filter_append]
  constructor
  · intro h
    have hsame : ∀ x ∈ kept, w x = p x := by
      intro x hx
      rw [Bool.eq_iff_iff]
      have hmem := h.mem_iff (a := x)
      simp only [mem_append, mem_filter, hx, true_and] at hmem
      exact ⟨fun hw => (hmem.mp hw).elim id And.right, fun hp =>
        hmem.mpr (.inl hp)⟩
    have hlength := h.length_eq
    rw [filter_congr hsame, length_append] at hlength
    have hrest : rest.filter p = [] := eq_nil_of_length_eq_zero (by omega)
    exact ⟨hsame, fun x hx => Bool.eq_false_iff.mpr
      (filter_eq_nil_iff.mp hrest x hx)⟩
  · rintro ⟨hsame, hrest⟩
    rw [filter_congr hsame, filter_eq_nil_iff.mpr
      fun x hx => Bool.eq_false_iff.mp (hrest x hx), append_nil]

/--
Where the rows of the inner join of the fetched rows that `w` keeps are those
of the stated join restricted to `p`: on its rows `w` and `p` agree, and no
pair with a row beyond the limit and no kept row without a partner satisfies
`p`.
-/
structure JoinFits (eq : V → V → Bool) (w p : Row V → Bool)
    (build probe : JoinTable V) :
    Prop where
  fetched : ∀ row ∈ fetchedRows eq build probe, w row = p row
  missed : ∀ row ∈ missedRows eq build probe, p row = false
  loneBuild : build.outer = true → ∀ row ∈ loneBuildRows eq build probe,
    p row = false
  loneProbe : probe.outer = true → ∀ row ∈ loneProbeRows eq build probe,
    p row = false

theorem fetched_perm_iff (eq : V → V → Bool) (w p : Row V → Bool)
    (build probe : JoinTable V) :
    ((fetchedRows eq build probe).filter w).Perm
    ((statedJoin eq build probe).filter p) ↔ JoinFits eq w p build probe := by
  have hstated : ((statedJoin eq build probe).filter p).Perm
      ((fetchedRows eq build probe ++ (missedRows eq build probe ++
        ((if build.outer then loneBuildRows eq build probe else []) ++
          (if probe.outer then loneProbeRows eq build probe else [])))).filter
        p) := by
    refine List.Perm.filter p ?_
    rw [← append_assoc]
    exact (matchedRows_rows eq build probe).append_right _
  have hmem : ∀ (outer : Bool) (rows : List (Row V)),
      (∀ x ∈ (if outer then rows else []), p x = false) ↔
        (outer = true → ∀ x ∈ rows, p x = false) := by
    intro outer rows
    cases outer <;> simp
  rw [hstated.congr_right, perm_filter_append_iff]
  simp only [forall_mem_append, hmem]
  constructor
  · rintro ⟨hfetched, hmissed, hbuild, hprobe⟩
    exact ⟨hfetched, hmissed, hbuild, hprobe⟩
  · rintro ⟨hfetched, hmissed, hbuild, hprobe⟩
    exact ⟨hfetched, hmissed, hbuild, hprobe⟩

end Stated

section Answers

variable {V : Type} [ArrowKernels V]

/-! ## What the sources answer -/

structure AnswersTable (ds key : Str) (schema : Schema)
    (batches : List (RecordBatch V)) (t : JoinTable V) : Prop where
  uniform : ∀ b ∈ batches, b.schema = schema
  index : schema.indexOf key = some t.key
  unique : schema.filter (·.name ≠ key) = schema.eraseIdx t.key
  untagged : key ≠ "_datasource"
  fetched : t.fetched = (batches.flatMap (·.rows)).map (tagRow ds)
  width : t.width = schema.length + 1

namespace AnswersTable

variable {ds key : Str} {schema : Schema} {batches : List (RecordBatch V)}
  {t : JoinTable V}

theorem key_tagged (h : AnswersTable ds key schema batches t) :
    Schema.indexOf (schema ++ [datasourceField]) key = some t.key := by
  rw [indexOf_append, h.index]
  rfl

theorem unique_tagged (h : AnswersTable ds key schema batches t) :
    (schema ++ [datasourceField]).filter (·.name ≠ key) =
      (schema ++ [datasourceField]).eraseIdx t.key := by
  have htag : datasourceField.name ≠ key := fun hname => h.untagged hname.symm
  rw [eraseIdx_append_of_lt_length (lt_of_indexOf h.index), filter_append,
    h.unique, filter_cons_of_pos (by simpa using htag), filter_nil]

theorem totalRows_eq (h : AnswersTable ds key schema batches t) :
    totalRows batches = t.fetched.length := by
  rw [h.fetched, length_map, length_flatMap]
  rfl

end AnswersTable

def joinOrder (a b : JoinTable V) : JoinTable V × JoinTable V :=
  if b.fetched.length ≤ a.fetched.length then (a, b) else (b, a)

def joinedSchema (build probe : Schema) (probeKey : Str) : Schema :=
  mergeSchemas (build ++ [datasourceField])
    (probe ++ [datasourceField]) probeKey .inner

def orderedSchema (a b : JoinTable V) (schemaA schemaB : Schema)
    (keyA keyB : Str) : Schema :=
  if b.fetched.length ≤ a.fetched.length then joinedSchema schemaA schemaB keyB
  else joinedSchema schemaB schemaA keyA

/-! ## What is read from the text -/

/-- The key pair `execute_join` uses. -/
def joinKeys [Unicode] (query : Str) (a b : Schema) :
    Fallible (Option (Str × Str)) := do
  return (← parseOnKeys query).or (findJoinKey a b)

def windowKeeps [Unicode] [FloatOps] (query : Str) (schema : Schema)
    (row : Row V) : Bool :=
  match parseTimeWindow query with
  | none => true
  | some window =>
    match schema.indexOf (Str.lastPart (· == '.') window.columnA),
      schema.indexOf (Str.lastPart (· == '.') window.columnB) with
    | some i, some j =>
      match row[i]?.join, row[j]?.join with
      | some a, some b => withinWindow window.intervalSecs
          (ArrowKernels.display a) (ArrowKernels.display b)
      | _, _ => false
    | _, _ => false

theorem rows_window [Unicode] [FloatOps] (query : Str) {schema : Schema}
    {joined : List (RecordBatch V)} (h : ∀ b ∈ joined, b.schema = schema) :
    (∀ b ∈ (match parseTimeWindow query with
        | some window => filterTimeWindow window joined
        | none => joined), b.schema = schema) ∧
      (match parseTimeWindow query with
        | some window => filterTimeWindow window joined
        | none => joined).flatMap RecordBatch.rows =
        (joined.flatMap RecordBatch.rows).filter
          (windowKeeps query schema) := by
  unfold windowKeeps
  cases parseTimeWindow query with
  | none => exact ⟨h, by simp⟩
  | some window =>
    -- all batches have one schema, so both columns are found in all or in none
    have hsame : filterTimeWindow window joined = joined.filterMap
        fun batch => do
        let i ← schema.indexOf (Str.lastPart (· == '.') window.columnA)
        let j ← schema.indexOf (Str.lastPart (· == '.') window.columnB)
        return batch.filterRows fun row =>
          match row[i]?.join, row[j]?.join with
          | some a, some b => withinWindow window.intervalSecs
              (ArrowKernels.display a) (ArrowKernels.display b)
          | _, _ => false :=
      filterMap_congr fun b hb => by cases h b hb; rfl
    dsimp only
    rw [hsame]
    cases schema.indexOf (Str.lastPart (· == '.') window.columnA) with
    | none => simp
    | some i =>
      cases schema.indexOf (Str.lastPart (· == '.') window.columnB) with
      | none => simp
      | some j =>
        simp only [Option.bind_eq_bind, Option.bind_some, Option.pure_def,
          filterMap_eq_map', forall_mem_map, flatMap_map, filter_flatMap]
        exact ⟨h, rfl⟩

variable {eq : V → V → Bool} {dsA dsB keyA keyB : Str}
  {schemaA schemaB : Schema}
  {batchesA batchesB : List (RecordBatch V)} {tableA tableB : JoinTable V}

section Rows

variable (hkeys : ∀ v w, eq v w = decide
  (ArrowKernels.display v = ArrowKernels.display w))

include hkeys

theorem nestedLoop_eq_matchedRows (i j : Nat) (build probe : List (Row V)) :
    nestedLoop i j build probe = matchedRows eq i j build probe := by
  have hsame : ∀ b p : Row V, sameKey i j b p = matchOn eq i j b p := by
    intro b p
    unfold sameKey matchOn keyText
    cases b[i]?.join with
    | none => cases p[j]?.join <;> simp
    | some v => cases p[j]?.join <;> simp [hkeys]
  simp [nestedLoop, matchedRows, hsame]

variable (hA : AnswersTable dsA keyA schemaA batchesA tableA)
  (hB : AnswersTable dsB keyB schemaB batchesB tableB)

include hA hB

theorem hashJoin_tagged (hneA : batchesA ≠ []) (hneB : batchesB ≠ []) :
    ∃ joined, hashJoin (addDatasourceColumn batchesA dsA) keyA
        (addDatasourceColumn batchesB dsB) keyB .inner = .ok joined ∧
      (∀ b ∈ joined, b.schema = joinedSchema schemaA schemaB keyB) ∧
      joined.flatMap (·.rows) = fetchedRows eq tableA tableB := by
  have hne : ∀ {batches : List (RecordBatch V)} (ds : Str), batches ≠ [] →
      addDatasourceColumn batches ds ≠ [] := by
    intro batches ds hne
    rw [addDatasourceColumn_eq]
    simpa using hne
  obtain ⟨joined, hjoined, hschema, hrows⟩ := joinSides_inner
    (schema_addDatasourceColumn hA.uniform) (hne dsA hneA)
    (schema_addDatasourceColumn hB.uniform)
    (hne dsB hneB) hA.key_tagged hB.key_tagged hB.unique_tagged
  refine ⟨[joined], hjoined, by simpa [joinedSchema] using hschema, ?_⟩
  rw [flatMap_singleton, hrows, rows_addDatasourceColumn,
    rows_addDatasourceColumn, fetchedRows,
    hA.fetched, hB.fetched, nestedLoop_eq_matchedRows hkeys]

theorem joinTagged_rows (hneA : batchesA ≠ []) (hneB : batchesB ≠ []) :
    ∃ joined, joinTagged ⟨dsA, batchesA⟩ ⟨dsB, batchesB⟩ keyA keyB =
    .ok joined ∧ (∀ b ∈ joined, b.schema =
        orderedSchema tableA tableB schemaA schemaB keyA keyB) ∧
      joined.flatMap (·.rows) = fetchedRows eq (joinOrder tableA tableB).1
        (joinOrder tableA tableB).2 := by
  unfold joinTagged joinOrder orderedSchema
  dsimp only
  rw [hA.totalRows_eq, hB.totalRows_eq]
  split
  · exact hashJoin_tagged hkeys hA hB hneA hneB
  · exact hashJoin_tagged hkeys hB hA hneB hneA

theorem joinAnswers_rows [Unicode] [FloatOps] {query : Str}
    (hon : joinKeys query schemaA schemaB = .ok (some (keyA, keyB))) :
    ∃ joined, joinAnswers query ⟨dsA, batchesA⟩ ⟨dsB, batchesB⟩ = .ok joined ∧
      (∀ b ∈ joined, b.schema =
        orderedSchema tableA tableB schemaA schemaB keyA keyB) ∧
      joined.flatMap (·.rows) = (fetchedRows eq (joinOrder tableA tableB).1
        (joinOrder tableA tableB).2).filter
          (windowKeeps query
              (orderedSchema tableA tableB schemaA schemaB keyA keyB)) := by
  have hempty : batchesA = [] ∨ batchesB = [] →
      fetchedRows eq (joinOrder tableA tableB).1 (joinOrder tableA tableB).2 =
        [] := by
    intro hnil
    have hfetched : tableA.fetched = [] ∨ tableB.fetched = [] := by
      rcases hnil with rfl | rfl
      · exact Or.inl hA.fetched
      · exact Or.inr hB.fetched
    unfold joinOrder
    rcases hfetched with h | h <;> split <;> simp [h, matchedRows]
  match batchesA, batchesB with
  | [], _ =>
    rw [hempty (Or.inl rfl)]
    exact ⟨[], rfl, by simp, rfl⟩
  | _ :: _, [] =>
    rw [hempty (Or.inr rfl)]
    exact ⟨[], rfl, by simp, rfl⟩
  | firstA :: restA, firstB :: restB =>
    obtain ⟨joined, hjoined, hschema, hrows⟩ :=
      joinTagged_rows hkeys hA hB (by simp) (by simp)
    unfold joinKeys at hon
    rw [← hA.uniform firstA mem_cons_self, ← hB.uniform firstB mem_cons_self]
      at hon
    obtain ⟨found, hfound, hon⟩ := Fallible.bind_eq_ok.mp hon
    obtain ⟨hkept, hkeptRows⟩ := rows_window query hschema
    refine ⟨_, ?_, hkept, hrows ▸ hkeptRows⟩
    simp only [joinAnswers, hfound, bind, Except.bind]
    rw [show found.or _ = _ from Except.ok.inj hon]
    simp only [hjoined]
    rfl

end Rows

variable [Unicode] [FloatOps]

end Answers

section Example

attribute [local instance] asciiUnicode integersOnly textCells

def idColumns (value : Str) : Schema :=
  [⟨"id", .utf8, true⟩, ⟨value, .utf8, true⟩]

def peopleBatch (rows : List (Str × Str)) : RecordBatch Str where
  schema := idColumns "name"
  rows := rows.map fun row => [some row.1, some row.2]
  fits := by
    intro row hrow
    obtain ⟨pair, -, rfl⟩ := mem_map.mp hrow
    rfl

def cityBatch : RecordBatch Str where
  schema := idColumns "city"
  rows := [[some "1", some "york"]]
  fits := by decide

def peopleAndCity : Env Str :=
  { Env.quiet Str with
    execute := fun _ ds _ =>
      if ds = "a" then
        .ok [peopleBatch [("1", "ann"), ("2", "bob")]]
      else .ok [cityBatch] }

def bothSources : ExecState Str :=
  { registry := [("a", .external), ("b", .external)] }

def cityOfBob : Str :=
  "SELECT * FROM a.t LEFT JOIN b.u ON t.id = u.id WHERE name = 'bob'"

def peopleTable (outer : Bool) : JoinTable Str where
  fetched := [[some "1", some "ann", some "a"],
    [some "2", some "bob", some "a"]]
  rest := []
  key := 0
  width := 3
  outer

def cityTable : JoinTable Str where
  fetched := [[some "1", some "york", some "b"]]
  rest := []
  key := 0
  width := 3
  outer := false

def namedBob (row : Row Str) : Bool := row[1]?.join = some "bob".toList

def sameText (v w : Str) : Bool := v = w

theorem peopleTable_answered (outer : Bool) :
    AnswersTable "a" "id" (idColumns "name")
      [peopleBatch [("1", "ann"), ("2", "bob")]] (peopleTable outer) where
  uniform b hb := by
    rw [mem_singleton.mp hb]
    rfl
  index := by rfl
  unique := by rfl
  untagged := by decide
  fetched := rfl
  width := rfl

private theorem cityTable_answered :
    AnswersTable "b" "id" (idColumns "city") [cityBatch] cityTable where
  uniform b hb := by
    rw [mem_singleton.mp hb]
    rfl
  index := by rfl
  unique := by rfl
  untagged := by decide
  fetched := rfl
  width := rfl

def peopleWithCity : Str := "SELECT * FROM a.t JOIN b.u ON t.id = u.id"

end Example

end Fuse.Server
