import Fuse.Engine.SortOrder
import Mathlib.Data.List.Induction

/-!
# The rows of a union

`union_schema` lists every name once, where it first appears, with the types
of its occurrences widened one after the other.  `align_batch` then reads each
row by name.
-/

namespace Fuse.Engine

open Foundation Fuse.Core List

section Schemas

def columnNames (schemas : List Schema) : List Str :=
  (schemas.flatten.map (·.name)).eraseDups

def typesNamed (fields : List Field) (name : Str) : List DataType :=
  (fields.filter (·.name = name)).map (·.dataType)

def widestType : List DataType → DataType
  | [] => .other []
  | first :: rest => rest.foldl widerType first

variable {types : List DataType} {schema : Schema}

theorem widestType_concat (h : types ≠ []) (type : DataType) :
    widestType (types ++ [type]) = widerType (widestType types) type := by
  cases types with
  | nil => exact absurd rfl h
  | cons first rest => simp [widestType]

theorem typesNamed_concat (fields : List Field) (field : Field) (name : Str) :
    typesNamed (fields ++ [field]) name =
      if name = field.name then typesNamed fields name ++ [field.dataType]
      else typesNamed fields name := by
  by_cases h : name = field.name
  · simp [typesNamed, h]
  · simp [typesNamed, h, Ne.symm h]

theorem typesNamed_eq_nil {fields : List Field} {name : Str} :
    typesNamed fields name = [] ↔ name ∉ fields.map (·.name) := by
  simp [typesNamed, filter_eq_nil_iff]

theorem foldl_addField (fields : List Field) :
    fields.foldl addField [] = (fields.map (·.name)).eraseDups.map fun name =>
      (name, widestType (typesNamed fields name)) := by
  -- over the fields seen so far: the next one widens its entry or is a new one
  induction fields using List.reverseRecOn with
  | nil => rfl
  | append_singleton fields field ih =>
    have hany : (((fields.map (·.name)).eraseDups.map fun name =>
        (name, widestType (typesNamed fields name))).any
          (·.1 = field.name)) = true ↔ field.name ∈ fields.map (·.name) := by
      simp [any_map, Function.comp_def]
    rw [foldl_concat, ih, map_append, eraseDups_append]
    by_cases hknown : field.name ∈ fields.map (·.name)
    · have hnone : ([field].map (·.name)).removeAll (fields.map (·.name)) =
          [] := by
        simpa [List.removeAll] using hknown
      rw [addField, if_pos (hany.mpr hknown), hnone, eraseDups_nil, append_nil,
        map_map]
      apply map_congr_left
      intro name hname
      have hne : typesNamed fields name ≠ [] := fun hnil =>
        typesNamed_eq_nil.mp hnil (mem_eraseDups.mp hname)
      rw [Function.comp_apply, typesNamed_concat]
      by_cases h : name = field.name
      · simp [h, widestType_concat (h ▸ hne)]
      · simp [h]
    · have hnew : ([field].map (·.name)).removeAll (fields.map (·.name)) =
          [field.name] := by
        simpa [List.removeAll] using hknown
      rw [addField, if_neg (mt hany.mp hknown), hnew, map_append]
      congr 1
      · apply map_congr_left
        intro name hname
        have h : name ≠ field.name := fun heq =>
          hknown (heq ▸ mem_eraseDups.mp hname)
        rw [typesNamed_concat, if_neg h]
      · have htypes : typesNamed (fields ++ [field]) field.name =
            [field.dataType] := by
          rw [typesNamed_concat, if_pos rfl, typesNamed_eq_nil.mpr hknown]
          rfl
        change _ = [(field.name, widestType (typesNamed _ field.name))]
        rw [htypes]
        rfl

def unionField (schemas : List Schema) (name : Str) : Field where
  name
  dataType := widestType (typesNamed schemas.flatten name)
  nullable := decide (schemas.length > 1)

@[simp] theorem unionField_name (schemas : List Schema) (name : Str) :
    (unionField schemas name).name = name := rfl

theorem unionSchema_eq (schemas : List Schema) :
    unionSchema schemas = (columnNames schemas).map (unionField schemas) := by
  rw [unionSchema, foldl_addField, map_map]
  rfl

theorem names_unionSchema (schemas : List Schema) :
    (unionSchema schemas).names = columnNames schemas := by
  simp [unionSchema_eq, Schema.names, Function.comp_def]

variable {schemas : List Schema}

theorem nullable_unionSchema (h : 1 < schemas.length) :
    ∀ f ∈ unionSchema schemas, f.nullable = true := by
  rw [unionSchema_eq]
  intro f hf
  obtain ⟨name, -, rfl⟩ := mem_map.mp hf
  simpa [unionField] using h

theorem mem_columnNames {field : Field} (hmem : schema ∈ schemas)
    (hfield : field ∈ schema) : field.name ∈ columnNames schemas := by
  rw [columnNames, mem_eraseDups]
  exact mem_map_of_mem (mem_flatten.mpr ⟨schema, hmem, hfield⟩)

theorem columnNames_ne_nil (h : allSame schemas ≠ true) :
    columnNames schemas ≠ [] := by
  by_contra hnil
  have hempty : ∀ schema ∈ schemas, schema = [] := by
    intro schema hschema
    by_contra hfields
    obtain ⟨field, hfield⟩ := exists_mem_of_ne_nil _ hfields
    exact ne_nil_of_mem (mem_columnNames hschema hfield) hnil
  exact h (allSame_of_forall_eq hempty)

theorem length_of_not_allSame (h : allSame schemas ≠ true) :
    1 < schemas.length := by
  match schemas with
  | [] => exact absurd rfl h
  | [schema] => exact absurd rfl h
  | _ :: _ :: rest => simp

theorem unionSchema_ne_nil (h : columnNames schemas ≠ []) :
    unionSchema schemas ≠ [] := by
  rw [← names_unionSchema] at h
  simpa [Schema.names] using h

theorem field_of_indexOf {name : Str} {i : Nat}
    (h : schema.indexOf name = some i) :
    ∃ source ∈ schema, schema[i]? = some source ∧ source.name = name := by
  obtain ⟨hlt, hname, -⟩ := findIdx?_eq_some_iff_getElem.mp h
  exact ⟨schema[i], getElem_mem hlt, getElem?_eq_getElem hlt,
    of_decide_eq_true hname⟩

def TypesAgree (schemas : List Schema) : Prop :=
  ∀ f ∈ schemas.flatten, ∀ g ∈ schemas.flatten, f.name = g.name →
    f.dataType = g.dataType

theorem widerType_self (type : DataType) :
    widerType type type = type := by simp [widerType]

private theorem widestType_const {type : DataType} (hne : types ≠ [])
    (h : ∀ t ∈ types, t = type) : widestType types = type := by
  induction types using List.reverseRecOn with
  | nil => exact absurd rfl hne
  | append_singleton types t ih =>
    have ht : t = type := h t (by simp)
    cases types with
    | nil => exact ht
    | cons first rest =>
      have hrest := ih (by simp) fun u hu => h u (mem_append_left _ hu)
      rw [widestType_concat (by simp), hrest, ht, widerType_self]

theorem type_unionField (hagree : TypesAgree schemas) {field : Field}
    (hfield : field ∈ schemas.flatten) :
    (unionField schemas field.name).dataType = field.dataType := by
  apply widestType_const
  · rw [Ne, typesNamed_eq_nil, not_not]
    exact mem_map_of_mem hfield
  · intro type htype
    obtain ⟨other, hother, rfl⟩ := mem_map.mp htype
    obtain ⟨hmem, hname⟩ := mem_filter.mp hother
    exact hagree other hmem field hfield (of_decide_eq_true hname)

theorem eraseDups_of_nodup {names : List Str} (h : names.Nodup) :
    names.eraseDups = names := by
  induction names with
  | nil => rfl
  | cons name names ih =>
    obtain ⟨hname, hrest⟩ := nodup_cons.mp h
    have hfilter : (names.filter fun b => !b == name) = names := by
      rw [filter_eq_self]
      intro other hother
      simpa using fun heq : other = name => hname (heq ▸ hother)
    rw [eraseDups_cons, hfilter, ih hrest]

theorem columnNames_same (h : ∀ s ∈ schemas, s = schema)
    (hdistinct : schema.names.Nodup) :
    columnNames (schema :: schemas) = schema.names := by
  have hnone : (schemas.flatten.map (·.name)).removeAll schema.names = [] := by
    rw [List.removeAll, filter_eq_nil_iff]
    intro name hname
    obtain ⟨field, hfield, rfl⟩ := mem_map.mp hname
    obtain ⟨s, hs, hfield⟩ := mem_flatten.mp hfield
    rw [h s hs] at hfield
    have hname : field.name ∈ schema.names := mem_map_of_mem hfield
    simpa using hname
  have hsplit : (schema :: schemas).flatten.map (·.name) =
      schema.names ++ schemas.flatten.map (·.name) := by simp [Schema.names]
  rw [columnNames, hsplit, eraseDups_append, hnone,
    eraseDups_of_nodup hdistinct, eraseDups_nil, append_nil]

end Schemas

section Batches

variable {V : Type} [ArrowKernels V]

def alignedBatch (target : Schema) (h : ∀ f ∈ target, f.nullable = true)
    (batch : RecordBatch V) : RecordBatch V where
  schema := target
  rows := batch.rows.map fun row => target.map (alignCell batch.schema row)
  fits row hrow := by
    obtain ⟨before, -, rfl⟩ := mem_map.mp hrow
    exact rowFits_nullable h (length_map _)

private theorem alignBatch_eq {batch : RecordBatch V} {target : Schema}
    (hnullable : ∀ f ∈ target, f.nullable = true) (hne : target ≠ [])
    (hcast : castable V batch.schema target = true) :
    alignBatch batch target = .ok (alignedBatch target hnullable batch) := by
  rw [alignBatch, if_pos hcast]
  exact RecordBatch.tryNew_ok (alignedBatch target hnullable batch) hne

theorem alignAll_eq {all : List (RecordBatch V)} {target : Schema}
    (hnullable : ∀ f ∈ target, f.nullable = true) (hne : target ≠ [])
    (hcast : ∀ b ∈ all, castable V b.schema target = true) :
    all.mapM (alignBatch · target) = .ok
    (all.map (alignedBatch target hnullable)) :=
  Fallible.mapM_eq_ok_map fun b hb => alignBatch_eq hnullable hne (hcast b hb)

def cellNamed (schema : Schema) (row : Row V) (name : Str) : Option V :=
  (schema.indexOf name).bind fun i => row[i]?.join

variable {schema : Schema} {schemas : List Schema}

omit [ArrowKernels V] in
theorem map_cellNamed (hdistinct : schema.names.Nodup) {row : Row V}
    (hlength : row.length = schema.length) :
    schema.names.map (cellNamed schema row) = row := by
  apply ext_getElem
  · simp [Schema.names, hlength]
  · intro i hi hrow
    have hlt : i < schema.length := hlength ▸ hrow
    have hindex : schema.indexOf schema[i].name = some i := by
      rw [Schema.indexOf, findIdx?_eq_some_iff_getElem]
      refine ⟨hlt, by simp, fun j hj => ?_⟩
      have hne := pairwise_iff_getElem.mp hdistinct j i
        (by simp [Schema.names]; omega) (by simpa [Schema.names] using hlt) hj
      simpa [Schema.names] using hne
    simp [Schema.names, cellNamed, hindex, hrow]

theorem castable_unionSchema (hagree : TypesAgree schemas)
    (hmem : schema ∈ schemas) :
    castable V schema (unionSchema schemas) = true := by
  rw [castable, all_eq_true]
  intro field hfield
  rw [unionSchema_eq] at hfield
  obtain ⟨name, -, rfl⟩ := mem_map.mp hfield
  cases hindex : schema.indexOf name with
  | none => simp [hindex]
  | some i =>
    obtain ⟨source, hsource, hat, rfl⟩ := field_of_indexOf hindex
    have htype := type_unionField hagree
      (mem_flatten.mpr ⟨schema, hmem, hsource⟩)
    simp [hindex, hat, htype]

theorem map_alignCell (hagree : TypesAgree schemas) (hmem : schema ∈ schemas)
    (row : Row V) : (unionSchema schemas).map (alignCell schema row) =
      (columnNames schemas).map (cellNamed schema row) := by
  rw [unionSchema_eq, map_map]
  apply map_congr_left
  intro name _
  rw [Function.comp_apply, alignCell, cellNamed, unionField_name]
  cases hindex : schema.indexOf name with
  | none => simp
  | some i =>
    obtain ⟨source, hsource, hat, rfl⟩ := field_of_indexOf hindex
    have htype := type_unionField hagree
      (mem_flatten.mpr ⟨schema, hmem, hsource⟩)
    cases hcell : row[i]?.join with
    | none => simp [hcell]
    | some v => simp [hcell, hat, htype]

section Union

variable {sets : List (List (RecordBatch V))}

def alignBatches (sets : List (List (RecordBatch V))) :
    Fallible (List (RecordBatch V)) :=
  sets.flatten.mapM (alignBatch · (unionSchema (sets.flatten.map (·.schema))))

def rowsByName (sets : List (List (RecordBatch V))) : List (List (Row V)) :=
  sets.flatten.map fun b => b.rows.map fun row =>
    (columnNames (sets.flatten.map (·.schema))).map (cellNamed b.schema row)

structure IsUnion (sets : List (List (RecordBatch V)))
    (out : List (RecordBatch V)) : Prop where
  names : ∀ b ∈ out, b.schema.names = columnNames (sets.flatten.map (·.schema))
  rows : out.map (·.rows) = rowsByName sets

theorem alignBatches_isUnion (hlength : 1 < sets.flatten.length)
    (hne : columnNames (sets.flatten.map (·.schema)) ≠ [])
    (hagree : TypesAgree (sets.flatten.map (·.schema))) :
    ∃ out, alignBatches sets = .ok out ∧ IsUnion sets out := by
  have hnullable : ∀ f ∈ unionSchema (sets.flatten.map (·.schema)),
      f.nullable = true :=
    nullable_unionSchema (by rwa [length_map])
  refine ⟨_, alignAll_eq hnullable (unionSchema_ne_nil hne) fun b hb =>
    castable_unionSchema hagree (mem_map_of_mem hb), ?_, ?_⟩
  · intro b hb
    obtain ⟨before, -, rfl⟩ := mem_map.mp hb
    exact names_unionSchema _
  · rw [rowsByName, map_map]
    apply map_congr_left
    intro b hb
    exact map_congr_left fun row _ =>
      map_alignCell hagree (mem_map_of_mem hb) row

omit [ArrowKernels V] in
theorem isUnion_same (hsame : allSame (sets.flatten.map (·.schema)) = true)
    (hdistinct : ∀ b ∈ sets.flatten, b.schema.names.Nodup) :
    IsUnion sets sets.flatten := by
  cases hall : sets.flatten with
  | nil => exact ⟨by simp, by simp [rowsByName, hall]⟩
  | cons first rest =>
    rw [hall] at hsame hdistinct
    have hschema : ∀ b ∈ first :: rest, b.schema = first.schema := by
      intro b hb
      rcases mem_cons.mp hb with rfl | hb
      · rfl
      · exact allSame_eq hsame _ (mem_map_of_mem hb)
    have hnames : columnNames (sets.flatten.map (·.schema)) =
        first.schema.names := by
      rw [hall]
      exact columnNames_same (allSame_eq hsame) (hdistinct first mem_cons_self)
    refine ⟨fun b hb => ?_, ?_⟩
    · rw [hnames, hschema b hb]
    · rw [rowsByName, hnames, hall]
      apply map_congr_left
      intro b hb
      conv_lhs => rw [← map_id b.rows]
      apply map_congr_left
      intro row hrow
      have hlength := RecordBatch.length_of_mem hrow
      rw [hschema b hb] at hlength ⊢
      exact (map_cellNamed (hdistinct first mem_cons_self) hlength).symm

/-- Union aligns by name and keeps every row; leaving out the case of one
schema gives the same rows where there are two batches and a column. -/
theorem unionBatches_aligns
    (hdistinct : ∀ b ∈ sets.flatten, b.schema.names.Nodup)
    (hagree : TypesAgree (sets.flatten.map (·.schema))) :
    ∃ out, unionBatches sets = .ok out ∧ IsUnion sets out ∧
    (1 < sets.flatten.length → columnNames (sets.flatten.map (·.schema)) ≠ [] →
          ∃ aligned, alignBatches sets = .ok aligned ∧
            aligned.map (·.rows) = out.map (·.rows)) := by
  by_cases hsame : allSame (sets.flatten.map (·.schema)) = true
  · have hunion := isUnion_same hsame hdistinct
    refine ⟨sets.flatten, by simp only [unionBatches, hsame, if_true],
      hunion, ?_⟩
    intro hlength hne
    obtain ⟨aligned, haligned, hrows⟩ := alignBatches_isUnion hlength hne hagree
    exact ⟨aligned, haligned, hrows.rows.trans hunion.rows.symm⟩
  · have hlength := length_of_not_allSame hsame
    rw [length_map] at hlength
    obtain ⟨out, hout, hunion⟩ :=
      alignBatches_isUnion hlength (columnNames_ne_nil hsame) hagree
    refine ⟨out, ?_, hunion, fun _ _ => ⟨out, hout, rfl⟩⟩
    rw [← hout]
    exact if_neg hsame

end Union

end Batches

section Examples

attribute [local instance] textCells

def columnsBatch (names : List Str) (rows : List (Row Str))
    (h : (rows.all fun row => row.length == names.length) = true) :
    RecordBatch Str where
  schema := names.map fun name => { name, dataType := .utf8, nullable := true }
  rows
  fits row hrow := rowFits_nullable (by simp)
    (by simpa using all_eq_true.mp h row hrow)

def unevenSets : List (List (RecordBatch Str)) :=
  [[columnsBatch ["host", "load"] [["web".toList, "3".toList].map some]
    (by simp)],
    [columnsBatch ["disk", "host"] [[none, some "db".toList]] (by simp)]]

theorem uneven_union : ∃ out, unionBatches unevenSets = .ok out ∧
    IsUnion unevenSets out ∧ ∃ aligned, alignBatches unevenSets = .ok aligned ∧
      aligned.map (·.rows) = out.map (·.rows) := by
  have hdistinct : ∀ b ∈ unevenSets.flatten, b.schema.names.Nodup := by decide
  obtain ⟨out, hout, hunion, haligned⟩ := unionBatches_aligns hdistinct
    (by unfold TypesAgree; decide)
  exact ⟨out, hout, hunion, haligned (by decide) (by decide +kernel)⟩

def loneNull : List (List (RecordBatch Str)) :=
  [[columnsBatch ["host"] [[none]] (by simp)]]

theorem lone_null_not_aligned : unionBatches loneNull = .ok loneNull.flatten ∧
      alignBatches loneNull = RecordBatch.arrowError Str .nullInRequired := by
  decide +kernel

end Examples

end Fuse.Engine
