import Fuse.Server.Provenance

/-!
# Column policies over several sources

The handler asks the policies about the first source of a query and about the
names of the output columns.  The cells of the response are tracked back to
the fields they were read from: what the policies say about those fields is
kept to exactly when the first source is at least as strict about a column as
every source is about the fields the column may hold, also when a join has
renamed the column.
-/

namespace Fuse.Server

open Foundation Fuse.Core Engine List Fallible

def strictness : FieldPolicy → Nat
  | .allow => 0
  | .mask => 1
  | .deny => 2

def Origin.verdict (engine : PolicyEngine) (user : UserContext) (o : Origin) :
    FieldPolicy :=
  engine.evaluate o.datasource o.table user o.field

section Filter

variable {V : Type} [ArrowKernels V]

/-- No cell comes from a denied field, and one from a masked field is the
mask. -/
def Secure (engine : PolicyEngine) (user : UserContext)
    (batches : List (RecordBatch (Sourced V))) : Prop :=
  ∀ b ∈ batches, ∀ row ∈ b.rows, ∀ v, some v ∈ row → ∀ o ∈ v.origins,
    o.verdict engine user ≠ .deny ∧
      (o.verdict engine user = .mask → ArrowKernels.display v = maskText)

def DisplaysText (V : Type) [ArrowKernels V] : Prop :=
  ∀ (cells : List V) (text : Str),
    ArrowKernels.display (ArrowKernels.ofText cells text) = text

variable {verdict : Str → FieldPolicy} {schema : Schema}

omit [ArrowKernels V] in
theorem mem_keptFields {i : Nat} {field : Field} {policy : FieldPolicy} :
    (i, field, policy) ∈ keptFields verdict schema ↔
      schema[i]? = some field ∧ verdict field.name ≠ .deny ∧
      policy = verdict field.name := by
  simp only [keptFields, mem_map, mem_filter, decide_eq_true_eq,
    mem_zipIdx_iff_getElem?, Prod.exists, Prod.mk.injEq]
  constructor
  · rintro ⟨f, j, ⟨hf, hallowed⟩, rfl, rfl, rfl⟩
    exact ⟨hf, hallowed, rfl⟩
  · rintro ⟨hfield, hallowed, rfl⟩
    exact ⟨field, i, ⟨hfield, hallowed⟩, rfl, rfl, rfl⟩

variable {engine : PolicyEngine} {user : UserContext} {G : Str → Origin → Prop}

theorem filterRow_secure (hdisplay : DisplaysText V) {row : Row (Sourced V)}
    (htracked : RowTracked G schema row) (hstrict : ∀ n o, G n o →
      strictness (o.verdict engine user) ≤ strictness (verdict n))
    {v : Sourced V} (hv : some v ∈ filterRow (keptFields verdict schema) row)
    {o : Origin} (ho : o ∈ v.origins) : o.verdict engine user ≠ .deny ∧
      (o.verdict engine user = .mask → ArrowKernels.display v = maskText) := by
  obtain ⟨⟨i, field, policy⟩, hkept, hcell⟩ := mem_map.mp hv
  obtain ⟨hfield, hallowed, rfl⟩ := mem_keptFields.mp hkept
  dsimp only at hcell
  split at hcell
  · rename_i hmask
    -- the mask stands for a cell that was there
    obtain ⟨w, hw, rfl⟩ := Option.map_eq_some_iff.mp hcell
    have ho : o ∈ w.origins := by simpa [ArrowKernels.ofText] using ho
    have hle := hstrict _ o (htracked i field w hfield
      (Option.join_eq_some_iff.mp hw) o ho)
    rw [hmask] at hle
    refine ⟨fun hdeny => ?_, fun _ => hdisplay _ _⟩
    simp [hdeny, strictness] at hle
  · rename_i hshown
    have hle := hstrict _ o (htracked i field v hfield
      (Option.join_eq_some_iff.mp hcell) o ho)
    have hallow : verdict field.name = .allow := by
      cases hverdict : verdict field.name with
      | allow => rfl
      | deny => exact absurd hverdict hallowed
      | mask => exact absurd hverdict hshown
    rw [hallow] at hle
    constructor <;> intro hown <;> simp [hown, strictness] at hle

theorem filterBatches_secure {ds table : Str} (hdisplay : DisplaysText V)
    {batches shown : List (RecordBatch (Sourced V))}
    (htracked : AllTracked G batches)
    (hstrict : ∀ n o, G n o → strictness (o.verdict engine user) ≤ strictness
      (engine.evaluate ds table user n))
    (h : filterBatches engine batches ds table user = .ok shown) :
    Secure engine user shown := by
  obtain ⟨schema, htracked⟩ := htracked
  unfold filterBatches at h
  split at h
  · cases h
    simp [Secure]
  rename_i first rest
  rw [(htracked first mem_cons_self).1] at h
  intro b hb row hrow v hv o ho
  obtain ⟨before, hbefore, hb⟩ := mem_of_mapM_ok h b hb
  dsimp only at hb
  split at hb
  · cases hb
  obtain ⟨-, hrows, -⟩ := RecordBatch.tryNew_parts hb
  rw [hrows] at hrow
  obtain ⟨unfiltered, hunfiltered, rfl⟩ := mem_map.mp hrow
  exact filterRow_secure hdisplay
    ((htracked before hbefore).2 unfiltered hunfiltered) hstrict hv ho

/-! ## What the filter lets through -/

def Schema.AllText (schema : Schema) : Prop := ∀ f ∈ schema, f.dataType = .utf8

/-- Every masked column is text, which is what masking makes of it. -/
def MasksText (verdict : Str → FieldPolicy) (schema : Schema) : Prop :=
  ∀ f ∈ schema, verdict f.name = .mask → f.dataType = .utf8

omit [ArrowKernels V] in
theorem filteredTypes_iff : filteredTypes (keptFields verdict schema) schema =
      Schema.types ((keptFields verdict schema).map fun (_, f, _) => f) ↔
      MasksText verdict schema := by
  rw [filteredTypes, Schema.types, map_map, map_inj_left]
  constructor
  · intro h f hf hmask
    obtain ⟨i, hi⟩ := mem_iff_getElem?.mp hf
    simpa [hmask, eq_comm] using h _
      (mem_keptFields.mpr ⟨hi, by simp [hmask], rfl⟩)
  · rintro h ⟨i, f, policy⟩ hkept
    obtain ⟨hfield, -, rfl⟩ := mem_keptFields.mp hkept
    by_cases hmask : verdict f.name = .mask
    · simp [hmask, h f (mem_of_getElem? hfield) hmask]
    · simp [hmask, hfield]

theorem rowFits_filterRow {row : Row V} (h : rowFits schema row = true) :
    rowFits ((keptFields verdict schema).map fun (_, f, _) => f)
      (filterRow (keptFields verdict schema) row) = true := by
  simp only [rowFits, Bool.and_eq_true, beq_iff_eq, List.all_eq_true] at h ⊢
  obtain ⟨hlength, hcells⟩ := h
  refine ⟨by simp [filterRow], ?_⟩
  rw [filterRow, List.zip_map']
  intro pair hpair
  obtain ⟨⟨i, f, policy⟩, hkept, rfl⟩ := List.mem_map.mp hpair
  obtain ⟨hfield, -, -⟩ := mem_keptFields.mp hkept
  obtain ⟨hi, hf⟩ := List.getElem?_eq_some_iff.mp hfield
  have hi' : i < row.length := hlength ▸ hi
  have hcell : (schema[i], row[i]) ∈ schema.zip row :=
    List.mem_iff_getElem.mpr ⟨i, by simp [hi, hi'], List.getElem_zip⟩
  have hfits := hcells _ hcell
  simp only [hf] at hfits
  simp only [List.getElem?_eq_getElem hi', Option.join_some]
  split
  · simpa using hfits
  · exact hfits

variable {ds table : Str} {batches shown : List (RecordBatch V)}

/-- Batches of one schema are all built against the fields that are kept of
it. -/
theorem filterBatches_eq_ok_iff (hsame : ∀ b ∈ batches, b.schema = schema) :
    filterBatches engine batches ds table user = .ok shown ↔
      Forall₂ (fun b b' => RecordBatch.tryNew
        ((keptFields (engine.evaluate ds table user) schema).map
          fun (_, f, _) => f)
        (filteredTypes (keptFields (engine.evaluate ds table user) schema)
          schema)
        (b.rows.map (filterRow
          (keptFields (engine.evaluate ds table user) schema))) = .ok b')
        batches shown := by
  rw [← mapM_eq_ok_iff]
  cases batches with
  | nil => rfl
  | cons first rest =>
    rw [filterBatches, hsame first mem_cons_self]
    apply iff_of_eq
    congr 1
    apply mapM_congr_mem
    intro b hb
    rw [hsame b hb, if_neg]
    simp only [any_eq_true, decide_eq_true_eq, not_exists, not_and, Nat.not_le]
    intro ⟨i, f, policy⟩ hmem
    exact (List.getElem?_eq_some_iff.mp (mem_keptFields.mp hmem).1).1

theorem rows_filterBatches (hsame : ∀ b ∈ batches, b.schema = schema)
    (h : filterBatches engine batches ds table user = .ok shown) :
    shown.map (·.rows) = batches.map (·.rows.map
      (filterRow (keptFields (engine.evaluate ds table user) schema))) := by
  have hbuilt := (filterBatches_eq_ok_iff hsame).mp h
  clear h hsame
  induction hbuilt with
  | nil => rfl
  | cons hb _ ih => simp [(RecordBatch.tryNew_parts hb).2.1, ih]

theorem filterBatches_of_masksText (hsame : ∀ b ∈ batches, b.schema = schema)
    (htext : MasksText (engine.evaluate ds table user) schema)
    (hkept : keptFields (engine.evaluate ds table user) schema ≠ []) :
    ∃ shown, filterBatches engine batches ds table user = .ok shown := by
  simp only [filterBatches_eq_ok_iff hsame, filteredTypes_iff.mpr htext,
    ← mapM_eq_ok_iff]
  apply exists_mapM_ok
  intro b hb
  refine ⟨_, RecordBatch.tryNew_ok ⟨_, _, fun row hrow => ?_⟩
    (by simpa using hkept)⟩
  obtain ⟨before, hbefore, rfl⟩ := mem_map.mp hrow
  exact rowFits_filterRow (hsame b hb ▸ b.fits before hbefore)

/-- The answer has a batch for each batch, with as many rows. -/
def KeepsRows (batches : List (RecordBatch V))
    (answer : Fallible (List (RecordBatch V))) : Prop :=
  ∃ shown, answer = .ok shown ∧ shown.map (·.rows.length) =
    batches.map (·.rows.length)

/-- There is nothing to filter, or some column is kept and only text is
masked. -/
def Maskable (verdict : Str → FieldPolicy) (schema : Schema)
    (batches : List (RecordBatch V)) :
    Prop :=
  batches = [] ∨ keptFields verdict schema ≠ [] ∧ MasksText verdict schema

theorem filterBatches_keepsRows_iff (hsame : ∀ b ∈ batches, b.schema = schema) :
    KeepsRows batches (filterBatches engine batches ds table user) ↔
      Maskable (engine.evaluate ds table user) schema batches := by
  constructor
  · rintro ⟨shown, hshown, -⟩
    cases (filterBatches_eq_ok_iff hsame).mp hshown with
    | nil => exact .inl rfl
    | cons hb _ =>
      obtain ⟨-, -, hkept, htypes⟩ := RecordBatch.tryNew_parts hb
      exact .inr ⟨by simpa using hkept, filteredTypes_iff.mp htypes⟩
  · rintro (rfl | ⟨hkept, htext⟩)
    · exact ⟨[], rfl, rfl⟩
    obtain ⟨shown, hshown⟩ := filterBatches_of_masksText hsame htext hkept
    refine ⟨shown, hshown, ?_⟩
    simpa [Function.comp_def] using congrArg (map length)
      (rows_filterBatches hsame hshown)

/-- Masking loses the result when it changes the type of a column or when no
column is left: the handler then answers with no batch at all. -/
theorem masking_keepsRows_iff (hsame : ∀ b ∈ batches, b.schema = schema) :
    (KeepsRows batches (filterBatches engine batches ds table user) ↔
      Maskable (engine.evaluate ds table user) schema batches) ∧
    ∀ (fed : FederatedResult V) refs, fed.datasources.headD [] = ds →
      (refs.head?.map (·.table)).getD [] = table →
      (KeepsRows batches (applyColumnRbac (some engine) user fed refs batches) ↔
        Maskable (engine.evaluate ds table user) schema batches) := by
  refine ⟨filterBatches_keepsRows_iff hsame, ?_⟩
  rintro fed refs rfl rfl
  rw [← filterBatches_keepsRows_iff hsame, applyColumnRbac]
  cases hfiltered : filterBatches engine batches (fed.datasources.headD [])
    ((refs.head?.map (·.table)).getD []) user with
  | ok shown => rfl
  | error e =>
    cases e with
    | panic reason => rfl
    | error e =>
      -- the fallback has no batch, so it keeps the rows of an empty result only
      cases batches with
      | nil => cases hfiltered
      | cons b rest => simp [KeepsRows, Fallible.orElse]

end Filter

section Leaks

variable {V : Type} [ArrowKernels V] {columns : Columns} {ref : TableRef}
  {column field : Str}

def textField (name : Str) : Field :=
  { name, dataType := .utf8, nullable := true }

def cellOf (V : Type) [ArrowKernels V] (origins : List Origin) : Sourced V :=
  ⟨ArrowKernels.ofText [] [], origins⟩

def textBatch (names : List Str) (rows : List (Row (Sourced V)))
    (h : ∀ row ∈ rows, row.length = names.length) :
    RecordBatch (Sourced V) where
  schema := names.map textField
  rows := rows
  fits row hrow := by
    simp only [rowFits, h row hrow, length_map, beq_self_eq_true, Bool.true_and,
      all_eq_true]
    intro pair hpair
    obtain ⟨name, -, hname⟩ := mem_map.mp (of_mem_zip hpair).1
    rw [← hname]
    rfl

omit [ArrowKernels V] in
theorem textBatch_tracked {G : Str → Origin → Prop} {names : List Str}
    {rows : List (Row (Sourced V))}
    {h : ∀ row ∈ rows, row.length = names.length}
    (hcells : ∀ row ∈ rows, ∀ name v, (name, some v) ∈ names.zip row →
      ∀ o ∈ v.origins, G name o) :
    AllTracked G [textBatch names rows h] := by
  refine ⟨names.map textField, fun b hb => ?_⟩
  cases mem_singleton.mp hb
  refine ⟨rfl, fun row hrow i f v hf hv => ?_⟩
  rw [getElem?_map] at hf
  obtain ⟨name, hname, rfl⟩ := Option.map_eq_some_iff.mp hf
  exact hcells row hrow name v
    (mem_of_getElem? (getElem?_zip_eq_some.mpr ⟨hname, hv⟩))

def leakBatch (ref : TableRef) (column field : Str) : RecordBatch (Sourced V) :=
  textBatch [column] [[some (cellOf V [⟨ref.datasource, ref.table, field⟩])]]
    (by simp)

def leakEnv (ref : TableRef) (column field : Str) : Env (Sourced V) :=
  { Env.quiet (Sourced V) with
    execute := fun _ ds sq =>
      if ds = ref.datasource ∧ sq.table = ref.table then
        .ok [leakBatch ref column field]
      else .ok [] }

def leakRows (ref : TableRef) (field ds : Str) (sq : SubQuery) :
    List (Row (Sourced V)) :=
  if ds = ref.datasource ∧ sq.table = ref.table then
    [[some (cellOf V [⟨ref.datasource, ref.table, field⟩])]]
  else []

theorem leakEnv_replies (ref : TableRef) (column field : Str) :
    (leakEnv ref column field : Env (Sourced V)).Replies (fun _ => True)
      (fun _ _ => [textField column]) (leakRows ref field) where
  chaos _ _ := rfl
  late _ _ _ := rfl
  execute number ds sq _ := by
    simp only [leakEnv, leakRows]
    split
    · exact ⟨_, rfl, fun b hb => mem_singleton.mp hb ▸ rfl, rfl⟩
    · exact ⟨_, rfl, by simp, rfl⟩

theorem leakEnv_reads (h : columns ref column field) :
    (leakEnv ref column field : Env (Sourced V)).Reads columns := by
  intro number ds sq batches hanswer
  simp only [leakEnv] at hanswer
  split at hanswer
  · rename_i heq
    obtain ⟨rfl, htable⟩ := heq
    cases hanswer
    apply textBatch_tracked
    simp [cellOf, htable, h]
  · cases hanswer
    exact AllTracked.nil

structure Leaks (ref : TableRef) (column field : Str)
    (fed : FederatedResult (Sourced V)) (schema : Schema) (i : Nat) :
    Prop where
  same : ∀ b ∈ fed.batches, b.schema = schema
  text : Schema.AllText schema
  column : (schema[i]?).map (·.name) = some column
  cell : ∃ row ∈ fed.batches.flatMap (·.rows), row[i]? =
    some (some (cellOf V [⟨ref.datasource, ref.table, field⟩]))

/-! ## A join that renames a column -/

def keyColumn (column : Str) : Str := 'k' :: column

def probeBatch (ref : TableRef) (column field : Str) :
    RecordBatch (Sourced V) :=
  textBatch [keyColumn column, column] [[some (cellOf V []),
      some (cellOf V [⟨ref.datasource, ref.table, field⟩])]] (by simp)

def buildBatch (V : Type) [ArrowKernels V] (column : Str) :
    RecordBatch (Sourced V) :=
  textBatch [keyColumn column, column]
    (List.replicate 2 [some (cellOf V []), none]) (by simp)

def sideFields (column : Str) : Schema :=
  [textField (keyColumn column), textField column] ++ [datasourceField]

theorem sideFields_key (column : Str) :
    (sideFields column).indexOf (keyColumn column) = some 0 ∧
      (sideFields column).filter (·.name ≠ keyColumn column) =
        (sideFields column).eraseIdx 0 := by
  have hcolumn : column ≠ keyColumn column := by
    intro h
    simpa [keyColumn] using congrArg length h
  have htag : datasourceField.name ≠ keyColumn column := nofun
  simp [sideFields, Schema.indexOf, findIdx?_cons, textField, hcolumn, htag]

theorem joinSides_leaks (ref : TableRef) (column field ds ds' : Str) :
    ∃ joined : RecordBatch (Sourced V),
    joinSides (addDatasourceColumn [buildBatch V column] ds)
        (keyColumn column) (addDatasourceColumn
          [probeBatch ref column field] ds')
        (keyColumn column) .inner = .ok [joined] ∧
      ∀ fed : FederatedResult (Sourced V), fed.batches = [joined] →
        Leaks ref ("probe_" ++ column) field fed joined.schema 3 := by
  obtain ⟨hindex, hunique⟩ := sideFields_key column
  rw [addDatasourceColumn_eq, addDatasourceColumn_eq]
  have hbuild : ∀ b ∈ [buildBatch V column].map (tagBatch ds),
      b.schema = sideFields column :=
    fun b hb => mem_singleton.mp hb ▸ rfl
  have hprobe : ∀ p ∈ [probeBatch ref column field].map (tagBatch ds'),
      (p : RecordBatch (Sourced V)).schema = sideFields column :=
    fun p hp => mem_singleton.mp hp ▸ rfl
  obtain ⟨joined, hjoined, hschema, hrows⟩ := joinSides_inner hbuild
    (by simp) hprobe (by simp) hindex hindex hunique
  rw [mergeSchemas_inner, hunique] at hschema
  refine ⟨joined, hjoined, fun fed hfed => ⟨?_, ?_, ?_, ?_⟩⟩
  · simp [hfed]
  · rw [hschema]
    intro f hf
    rcases mem_append.mp hf with hf | hf
    · simp only [sideFields, cons_append, nil_append, mem_cons, not_mem_nil,
        or_false] at hf
      rcases hf with rfl | rfl | rfl <;> rfl
    · obtain ⟨g, hg, rfl⟩ := mem_map.mp hf
      rcases mem_pair.mp hg with rfl | rfl <;> rfl
  · have hname : probeName (sideFields column) column = "probe_" ++ column :=
        if_pos (by simp [sideFields, Schema.names, textField])
    rw [hschema, ← hname]
    rfl
  · rw [hfed, flatMap_singleton, hrows]
    have hkeys : sameKey 0 0 (tagRow ds [some (cellOf V []), none])
      (tagRow ds' [some (cellOf V []),
          some (cellOf V [⟨ref.datasource, ref.table, field⟩])]) = true := by
      simp [sameKey, keyText, tagRow]
    refine ⟨_, mem_flatMap.mpr ⟨_, mem_singleton_self _,
      mem_map.mpr ⟨_, mem_filter.mpr ⟨mem_cons_self, hkeys⟩, rfl⟩⟩, rfl⟩

/-- One call is answered by the side that is probed, all others by the other. -/
def joinLeakEnv (ref : TableRef) (turn : Nat) (column field : Str) :
    Env (Sourced V) :=
  { Env.quiet (Sourced V) with
    execute := fun number ds sq =>
      if number = turn ∧ ds = ref.datasource ∧ sq.table = ref.table then
        .ok [probeBatch ref column field]
      else .ok [buildBatch V column] }

theorem joinLeakEnv_other {turn number : Nat} (h : number ≠ turn)
    (column field ds : Str) (sq : SubQuery) :
    (joinLeakEnv ref turn column field).execute number ds sq =
      .ok [buildBatch V column] :=
  if_neg fun hturn => h hturn.1

theorem joinLeakEnv_reads (h : columns ref column field) (turn : Nat) :
    (joinLeakEnv ref turn column field : Env (Sourced V)).Reads columns := by
  intro number ds sq batches hanswer
  simp only [joinLeakEnv] at hanswer
  split at hanswer
  · rename_i heq
    obtain ⟨-, rfl, htable⟩ := heq
    cases hanswer
    apply textBatch_tracked
    simp [or_imp, forall_and, cellOf, htable, h]
  · cases hanswer
    apply textBatch_tracked
    simp [cellOf]

end Leaks

section Query

variable {V : Type} [ArrowKernels V] [Unicode]

def askedOf (caller : Request (Sourced V)) (env : Env (Sourced V)) :
    Request (Sourced V) :=
  { caller with env, body := { caller.body with format := "sql", page := {} } }

omit [ArrowKernels V] in
theorem askedOf_format (caller : Request (Sourced V))
    (env : Env (Sourced V)) : (askedOf caller env).format = "sql" := by
  change toLowercase "sql".toList = _
  rw [Unicode.toLowercase_of_all (by decide)]
  rfl

def unionText : Str := "union "

theorem unionText_fansOut : isUnionQuery unionText = true := by
  have hlower : toLowercase (stripStringLiterals unionText) = unionText :=
    (Unicode.toLowercase_of_all (by decide)).trans (by decide)
  simp only [isUnionQuery, hlower]
  decide

theorem emptyText_joins : isUnionQuery [] = false := by
  have hlower : toLowercase (stripStringLiterals []) = [] :=
    Unicode.toLowercase_ascii [] (by simp)
  simp only [isUnionQuery, hlower]
  decide

theorem findJoinKey_side (column : Str) :
    findJoinKey [textField (keyColumn column), textField column]
      [textField (keyColumn column), textField column] =
        some (keyColumn column, keyColumn column) := by
      simp [findJoinKey, Schema.names, textField]

variable [FloatOps]

def firstVerdict (engine : PolicyEngine) (user : UserContext)
    (refs : List TableRef) (column : Str) : FieldPolicy :=
  engine.evaluate ((refs.map (·.datasource)).headD [])
    ((refs.head?.map (·.table)).getD []) user column

variable {cfg : Config} {engine : PolicyEngine} {refs : List TableRef}
  {columns : Columns} {fed : FederatedResult (Sourced V)} {ref : TableRef}
  {r : Request (Sourced V)} {query : Str} {s : ExecState (Sourced V)}
    {schema : Schema}
  {row : Row (Sourced V)} {caller : Request (Sourced V)} {column field : Str}

/-! ## What a caller is shown of plain text -/

structure PlainQuery (query : Str) : Prop where
  noGroups : parseGroupBy query = .ok []
  noHaving : parseHaving query = .ok none

def noClauses : PlanClauses where
  orderBy := []
  limit := none
  isDistinct := false
  offset := 0

theorem plainQuery_of_lower {text : Str}
    (hlower : toLowercase (stripStringLiterals text) = text)
    (hgroup : Str.rfind "group by ".toList text = none)
    (hhaving : Str.rfind " having ".toList text = none) : PlainQuery text := by
  have hnone : ∀ keyword : Str, Str.rfind keyword text = none →
      clauseAfter keyword text = .ok none := by
    intro keyword hfind
    simp only [clauseAfter, hlower, hfind]
    rfl
  constructor
  · simp only [parseGroupBy, hnone _ hgroup]
    rfl
  · simp only [parseHaving, hnone _ hhaving]
    rfl

theorem unionText_plain : PlainQuery unionText :=
  plainQuery_of_lower ((Unicode.toLowercase_of_all (by decide)).trans
    (by decide))
    (by decide) (by decide)

theorem emptyText_plain : PlainQuery [] :=
  plainQuery_of_lower (Unicode.toLowercase_ascii [] (by simp)) (by decide)
    (by decide)

private theorem shapeResult_plain {env : Env V} (hplain : PlainQuery query)
    (fed : FederatedResult V) :
    shapeResult env query noClauses fed = .ok fed.batches := by
  have horder : applyOrderBy noClauses.orderBy fed.batches =
      .ok fed.batches := by
    cases hb : fed.batches <;> rfl
  have hdistinct : applyDistinct noClauses.isDistinct fed.batches =
      .ok fed.batches := by
    cases hb : fed.batches <;> rfl
  simp only [shapeResult,
    mergedResult_plain env hplain.noGroups hplain.noHaving]
  change (applyOrderBy noClauses.orderBy fed.batches >>=
    applyDistinct noClauses.isDistinct) = _
  rw [horder]
  exact hdistinct

private theorem pageOf_plain {r : Request V} {ex : Execution V}
    (hplain : PlainQuery ex.query)
    (hpage : r.body.page = {}) {shown : List (RecordBatch V)}
    (hshown : applyColumnRbac cfg.columnRbac r.userContext ex.fed ex.refs
      ex.fed.batches =
        .ok shown) : ∃ page, pageOf cfg r noClauses ex = .ok page ∧
    page.batches = shown := by
  simp only [pageOf, shapeResult_plain hplain, finishPage, hpage]
  change ∃ page, (applyColumnRbac cfg.columnRbac r.userContext ex.fed ex.refs
    ex.fed.batches >>= _) = .ok page ∧ _
  rw [hshown]
  exact ⟨_, rfl, rfl⟩

/-- A cell that is in the answer is shown unless the first source is as strict
about its column as its own source is about its field. -/
theorem strict_of_secure (hrbac : cfg.columnRbac = some engine)
    (hpage : r.body.page = {})
    (ex : Execution (Sourced V)) (hplain : PlainQuery ex.query)
    (hsources : ex.fed.datasources = ex.refs.map (·.datasource))
    (hsame : ∀ b ∈ ex.fed.batches, b.schema = schema)
    (htext : Schema.AllText schema)
    {b : RecordBatch (Sourced V)} (hb : b ∈ ex.fed.batches)
    (hrow : row ∈ b.rows) {i : Nat}
    {field : Field} (hfield : schema[i]? = some field) {v : Sourced V}
    (hv : row[i]? = some (some v))
    (hvisible : ArrowKernels.display v ≠ maskText) {o : Origin}
    (ho : o ∈ v.origins) (hsecure : ∀ page,
      pageOf cfg r noClauses ex = .ok page →
      Secure engine r.userContext page.batches) :
    strictness (o.verdict engine r.userContext) ≤
      strictness (firstVerdict engine r.userContext ex.refs field.name) := by
  by_cases hdeny : firstVerdict engine r.userContext ex.refs field.name = .deny
  · rw [hdeny]
    cases o.verdict engine r.userContext <;> decide
  have hmem := mem_keptFields.mpr ⟨hfield, hdeny, rfl⟩
  obtain ⟨shown, hshown⟩ :=
    filterBatches_of_masksText hsame (fun f hf _ => htext f hf)
    (ne_nil_of_mem hmem)
  have happlied : applyColumnRbac cfg.columnRbac r.userContext ex.fed
      ex.refs ex.fed.batches = .ok shown := by
    rw [hrbac]
    simp only [applyColumnRbac, hsources]
    exact congrArg (Fallible.orElse · []) hshown
  obtain ⟨page, hpageOf, rfl⟩ := pageOf_plain hplain hpage happlied
  obtain ⟨b', hb', hrows⟩ := mem_map.mp
    (rows_filterBatches hsame hshown ▸ mem_map_of_mem (f := _) hb)
  have hcells := hsecure page hpageOf b' hb' _ (hrows ▸ mem_map_of_mem hrow)
  by_cases hmask : firstVerdict engine r.userContext ex.refs field.name = .mask
  · have hcell := hcells (ArrowKernels.ofText [v] maskText)
        (mem_map.mpr ⟨_, hmem, by
        dsimp only
        rw [if_pos hmask, hv]
        rfl⟩) o (by simpa [ArrowKernels.ofText] using ho)
    rw [hmask]
    cases hown : o.verdict engine r.userContext with
    | deny => exact absurd hown hcell.1
    | mask | allow => decide
  · have hcell := hcells v (mem_map.mpr ⟨_, hmem, by
      dsimp only
      rw [if_neg hmask, hv]
      rfl⟩) o ho
    cases hown : o.verdict engine r.userContext with
    | deny => exact absurd hown hcell.1
    | mask => exact absurd (hcell.2 hown) hvisible
    | allow => exact Nat.zero_le _

theorem joinAnswers_plain (column dsA dsB : Str) {a b : RecordBatch (Sourced V)}
    (ha : a.schema = [textField (keyColumn column), textField column])
    (hb : b.schema = [textField (keyColumn column), textField column]) :
    joinAnswers [] ⟨dsA, [a]⟩ ⟨dsB, [b]⟩ =
      joinTagged ⟨dsA, [a]⟩ ⟨dsB, [b]⟩ (keyColumn column)
        (keyColumn column) := by
  have hlower : toLowercase ([] : Str) = [] :=
    Unicode.toLowercase_ascii [] (by simp)
  have hkeys : parseOnKeys [] = .ok none := by
    simp only [parseOnKeys, hlower]
    rfl
  have hwindow : parseTimeWindow [] = none := by
    simp only [parseTimeWindow, stripStringLiterals, stripLiterals, hlower]
    rfl
  simp only [joinAnswers, hkeys, ha, hb, hwindow, findJoinKey_side]
  cases hjoined : joinTagged (⟨dsA, [a]⟩ : JoinSide (Sourced V)) ⟨dsB, [b]⟩
      (keyColumn column) (keyColumn column) with
  | error e => simp [bind, Except.bind, Option.or, hjoined]
  | ok joined => simp [bind, Except.bind, Option.or, hjoined, pure, Except.pure]

theorem executeJoin_leaks {a b ref : TableRef} (href : ref ∈ [a, b])
    (column field : Str) :
    ∃ turn fed, (executeJoin (joinLeakEnv ref turn column field) [] [a, b]
        (knowing [a, b] : ExecState (Sourced V))).result = .ok fed ∧
      ∃ schema, Leaks ref ("probe_" ++ column) field fed schema 3 := by
  have hA := knowing_external (V := Sourced V) [a, b] a (by simp)
  have hB := knowing_external (V := Sourced V) [a, b] b (by simp)
  -- the source of the cell has the fewer rows, so it is probed
  rcases mem_pair.mp href with rfl | rfl
  · obtain ⟨joined, hjoined, hleaks⟩ := joinSides_leaks (V := V) ref column
      field b.datasource ref.datasource
    refine ⟨0, ⟨[joined], [ref.datasource, b.datasource], []⟩, ?_,
      joined.schema, hleaks _ rfl⟩
    refine executeJoin_answered hA hB (fun _ _ => rfl) (fun _ _ _ => rfl)
      (if_pos ⟨rfl, rfl, rfl⟩)
        (joinLeakEnv_other Nat.one_ne_zero column field _ _) ?_
    rw [joinAnswers_plain column _ _ rfl rfl]
    exact hjoined
  · obtain ⟨joined, hjoined, hleaks⟩ := joinSides_leaks (V := V) ref column
      field a.datasource ref.datasource
    refine ⟨1, ⟨[joined], [a.datasource, ref.datasource], []⟩, ?_,
      joined.schema, hleaks _ rfl⟩
    refine executeJoin_answered hA hB (fun _ _ => rfl) (fun _ _ _ => rfl)
      (joinLeakEnv_other Nat.zero_ne_one column field _ _)
        (if_pos ⟨rfl, rfl, rfl⟩) ?_
    rw [joinAnswers_plain column _ _ rfl rfl]
    exact hjoined

variable [SqlParser]

def Shown (cfg : Config) (caller : Request (Sourced V)) (refs : List TableRef)
    (columns : Columns) (page : Page (Sourced V)) : Prop :=
  ∃ (r : Request (Sourced V)) (query : Str) (clauses : PlanClauses)
    (s : ExecState (Sourced V)) (fed : FederatedResult (Sourced V)),
    r.userContext = caller.userContext ∧ r.env.Reads columns ∧ s.External refs ∧
      (executeRefs r.env query r.format refs r.range s).result = .ok fed ∧
      pageOf cfg r clauses ⟨query, refs, fed⟩ = .ok page

/--
The first source is at least as strict about a column as each source is about
the fields the column may hold, and with two sources also about the name a
join may give it.
-/
def FirstStrictest (engine : PolicyEngine) (user : UserContext)
    (refs : List TableRef) (columns : Columns) : Prop :=
  ∀ ref ∈ refs, ∀ column field, columns ref column field →
    let own := strictness
      (engine.evaluate ref.datasource ref.table user field)
    own ≤ strictness (firstVerdict engine user refs column) ∧
      (refs.length = 2 →
        own ≤ strictness (firstVerdict engine user refs ("probe_" ++ column)))

theorem pageOf_secure (hrbac : cfg.columnRbac = some engine)
    (hdisplay : DisplaysText V)
    {clauses : PlanClauses} {page : Page (Sourced V)}
    (hstrict : FirstStrictest engine r.userContext refs columns)
    (hreads : r.env.Reads columns) (hexternal : s.External refs)
    (hfed : (executeRefs r.env query r.format refs r.range s).result = .ok fed)
    (h : pageOf cfg r clauses ⟨query, refs, fed⟩ = .ok page) :
    Secure engine r.userContext page.batches := by
  obtain ⟨htracked, hsources⟩ := executeRefs_tracked (G := fun n o =>
    strictness (o.verdict engine r.userContext) ≤ strictness
    (firstVerdict engine r.userContext refs n)) hreads hexternal (fun n o ho =>
    (hstrict _ ho.1 n _ ho.2).1) (fun htwo n o ho =>
    (hstrict _ ho.1 n _ ho.2).2 htwo) hfed
  obtain ⟨shaped, hshaped, h⟩ := bind_eq_ok.mp h
  obtain ⟨window, hwindow, h⟩ := bind_eq_ok.mp h
  obtain ⟨batches, hbatches, h⟩ := bind_eq_ok.mp h
  cases h
  have htracked :=
    takeWindow_tracked (shapeResult_tracked htracked hshaped) hwindow
  rw [hrbac] at hbatches
  rcases orElse_cases hbatches with hfiltered | rfl
  · dsimp only at hfiltered
    rw [hsources] at hfiltered
    exact filterBatches_secure hdisplay htracked (fun _ _ ho => ho) hfiltered
  · simp [Secure]

theorem executeSingle_leaks (ref : TableRef) (column field query : Str)
    (range : Option RangeParams) :
    ∃ fed, (executeSingle (leakEnv ref column field) query "sql" ref range
        (knowing [ref] : ExecState (Sourced V))).result = .ok fed ∧
      Leaks ref column field fed [textField column] 0 := by
  obtain ⟨built, hbuilt, htable⟩ := buildSubQuery_sql query ref.table
  obtain ⟨fed, hfed, hschema, hrows, -⟩ :=
    (leakEnv_replies (V := V) ref column field).single
    (knowing_external [ref]) hbuilt range trivial
  refine ⟨fed, hfed, hschema, by simp [Schema.AllText, textField], rfl, ?_⟩
  rw [hrows, leakRows, if_pos ⟨rfl, htable⟩]
  exact ⟨_, mem_singleton_self _, rfl⟩

theorem executeUnion_leaks (href : ref ∈ refs) (column field query : Str) :
    ∃ fed, (executeUnion (leakEnv ref column field) query "sql" refs
        (knowing refs : ExecState (Sourced V))).result = .ok fed ∧
      Leaks ref column field fed ([textField column] ++ [datasourceField])
          0 := by
  obtain ⟨base, hbase⟩ : ∃ base, unionBase query "sql" refs = .ok base := by
    cases refs with
    | nil => cases href
    | cons first rest =>
      obtain ⟨sq, hsq, -⟩ := buildSubQuery_sql query first.table
      exact ⟨sq, by simp only [unionBase, hsq, Fallible.orElse]⟩
  obtain ⟨fed, hfed, hschema, hrows, -⟩ :=
    (leakEnv_replies (V := V) ref column field).union
    (knowing_external refs) hbase (fun _ _ => trivial) fun _ _ => rfl
  refine ⟨fed, hfed, hschema, ?_, rfl, ?_⟩
  · intro f hf
    rcases mem_pair.mp hf with rfl | rfl <;> rfl
  · have hrow : [some (cellOf V [⟨ref.datasource, ref.table, field⟩])] ∈
        leakRows ref field ref.datasource (sourceSubQuery base ref) := by
      rw [leakRows, if_pos ⟨rfl, rfl⟩]
      exact mem_singleton_self _
    rw [hrows]
    exact ⟨_, mem_flatMap.mpr ⟨ref, href, mem_map_of_mem hrow⟩, rfl⟩

theorem executeRefs_leaks (href : ref ∈ refs) (column field : Str)
    (range : Option RangeParams) :
    ∃ fed, (executeRefs (leakEnv ref column field) unionText "sql" refs range
        (knowing refs : ExecState (Sourced V))).result = .ok fed ∧
      ∃ schema, Leaks ref column field fed schema 0 := by
  unfold executeRefs
  split
  · rename_i only
    cases mem_singleton.mp href
    obtain ⟨fed, hfed, hleaks⟩ :=
      executeSingle_leaks (V := V) ref column field unionText range
    exact ⟨fed, hfed, _, hleaks⟩
  · obtain ⟨fed, hfed, hleaks⟩ :=
      executeUnion_leaks (V := V) href column field unionText
    rw [unionText_fansOut, Bool.or_true, if_pos rfl]
    exact ⟨fed, hfed, _, hleaks⟩

theorem Leaks.strict (hrbac : cfg.columnRbac = some engine)
    (hdisplay : DisplaysText V)
    (hsecure : ∀ page, Shown cfg caller refs columns page →
      Secure engine caller.userContext page.batches) {env : Env (Sourced V)}
    (hreads : env.Reads columns) (hplain : PlainQuery query)
    (hfed : (executeRefs env query "sql" refs caller.range
      (knowing refs)).result = .ok fed)
    {i : Nat} (hleaks : Leaks ref column field fed schema i) :
    strictness (engine.evaluate ref.datasource ref.table caller.userContext
      field) ≤
      strictness (firstVerdict engine caller.userContext refs column) := by
  obtain ⟨hsame, htext, hcolumn, row, hrow, hcell⟩ := hleaks
  obtain ⟨f, hf, rfl⟩ := Option.map_eq_some_iff.mp hcolumn
  obtain ⟨b, hb, hrow⟩ := mem_flatMap.mp hrow
  have hvisible : ArrowKernels.display
      (cellOf V [⟨ref.datasource, ref.table, field⟩]) ≠ maskText := by
    intro hmask
    exact absurd ((hdisplay [] []).symm.trans hmask) (by decide)
  have hasked : (executeRefs (askedOf caller env).env query
      (askedOf caller env).format refs (askedOf caller env).range
      (knowing refs)).result = .ok fed := by
    rw [askedOf_format]
    exact hfed
  have hsources := (executeRefs_tracked (G := fun _ _ => True) hreads
    (knowing_external refs) (fun _ _ _ => trivial)
    (fun _ _ _ _ => trivial) hfed).2
  exact strict_of_secure (r := askedOf caller env) hrbac rfl ⟨query, refs,
    fed⟩ hplain hsources
    hsame htext hb hrow hf hcell hvisible (mem_singleton_self _)
        fun page hpageOf =>
      hsecure page ⟨askedOf caller env, query, noClauses, _, fed, rfl, hreads,
        knowing_external refs, hasked, hpageOf⟩

/--
Of every query over these sources, whatever its text and the contents of the
tables, no denied cell is shown and every masked one is the mask, exactly when
the first source is the strictest.
-/
theorem column_policies_enforced_iff {cfg : Config} {engine : PolicyEngine}
    (hrbac : cfg.columnRbac = some engine) (hdisplay : DisplaysText V)
    (caller : Request (Sourced V)) (refs : List TableRef) (columns : Columns) :
    (∀ page, Shown cfg caller refs columns page →
      Secure engine caller.userContext page.batches) ↔
      FirstStrictest engine caller.userContext refs columns := by
  constructor
  · intro hsecure ref href column field hcolumn
    constructor
    · obtain ⟨fed, hfed, schema, hleaks⟩ := executeRefs_leaks (V := V) href
        column field caller.range
      exact hleaks.strict hrbac hdisplay hsecure
        (leakEnv_reads hcolumn) unionText_plain hfed
    · intro htwo
      match refs, htwo with
      | [a, b], _ =>
        obtain ⟨turn, fed, hfed, schema, hleaks⟩ :=
          executeJoin_leaks (V := V) href column field
        refine hleaks.strict hrbac hdisplay hsecure
          (joinLeakEnv_reads hcolumn turn) emptyText_plain ?_
        unfold executeRefs
        rw [emptyText_joins, if_neg (by decide)]
        exact hfed
  · rintro hstrict page ⟨r, query, clauses, s, fed, huser, hreads, hexternal,
      hfed, hpage⟩
    rw [← huser] at hstrict ⊢
    exact pageOf_secure hrbac hdisplay hstrict hreads hexternal hfed hpage

end Query

section Example

attribute [local instance] asciiUnicode integersOnly textCells

def deniedInB : PolicyEngine := [{ datasource := "b", denyFields := ["ssn"] }]

def peopleOfBoth : Str := "SELECT * FROM a.t UNION ALL SELECT * FROM b.t"

def askPeopleOfBoth : Request Str where
  env := peopleSource
  body := { query := peopleOfBoth }

theorem union_shows_denied_field :
    letI := tableParser []
    deniedInB.evaluate "b" "t" askPeopleOfBoth.userContext "ssn" = .deny ∧
      shown (serve { columnRbac := some deniedInB } askPeopleOfBoth
        freshServer) = some ⟨["name", "ssn", "_datasource"],
          [[some "ann", some "1", some "a"], [some "bob", some "2", some "a"],
            [some "ann", some "1", some "b"],
            [some "bob", some "2", some "b"]]⟩ := by decide +kernel

/-- The field is denied in both tables, also under the name a join may give
it. -/
def deniedInBoth : PolicyEngine := ["a", "b"].map fun ds =>
    { datasource := ds, denyFields := ["ssn", "probe_ssn"] }

def peopleColumns : Columns := fun _ column field =>
  column = field ∧ (field = "name" ∨ field = "ssn")

def someCaller : Request (Sourced Str) where
  env := Env.quiet (Sourced Str)
  body := { query := [] }

theorem column_policies_enforced_in_both :
    letI := tableParser []
    let refs : List TableRef := [⟨"a", "t"⟩, ⟨"b", "t"⟩]
    (∀ page, Shown { columnRbac := some deniedInBoth } someCaller refs
        peopleColumns page →
      Secure deniedInBoth someCaller.userContext page.batches) ∧
      deniedInBoth.evaluate "b" "t" someCaller.userContext "ssn" = .deny := by
  let := tableParser []
  refine ⟨(column_policies_enforced_iff rfl (fun _ _ => rfl) someCaller _
    peopleColumns).mpr ?_, by decide⟩
  rintro ref href column field ⟨rfl, hfield⟩
  rcases mem_pair.mp href with rfl | rfl <;>
    rcases hfield with rfl | rfl <;> decide

def maskedAges : PolicyEngine := [{ datasource := "a", maskFields := ["age"] }]

def ageBatch (type : DataType) : RecordBatch Str :=
  ⟨[⟨"age", type, false⟩], [[some "41"], [some "7"]], by simp [rowFits]⟩

/-- Masking an integer column is a type mismatch, and the handler shows an
empty result for it. -/
theorem masked_integers_lost :
    ¬ KeepsRows [ageBatch .int64]
    (filterBatches maskedAges [ageBatch .int64] "a" "t" ⟨"ann", []⟩) ∧
      applyColumnRbac (some maskedAges) ⟨"ann", []⟩ ⟨[], ["a"], []⟩ [⟨"a", "t"⟩]
        [ageBatch .int64] = .ok [] := by
  refine ⟨?_, by decide⟩
  rintro ⟨shown, hshown, -⟩
  cases hshown

theorem masked_text_kept :
    KeepsRows [ageBatch .utf8]
    (filterBatches maskedAges [ageBatch .utf8] "a" "t" ⟨"ann", []⟩) :=
  (masking_keepsRows_iff fun _ hb => congrArg _ (mem_singleton.mp hb)).1.mpr
    (.inr ⟨by decide, by simp [MasksText, ageBatch]⟩)

end Example

end Fuse.Server
