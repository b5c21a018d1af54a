import Fuse.Engine.UnionRows
import Fuse.Foundation.DebugText

/-!
# Columns that clash in type

Where a name occurs with several types, `union_schema` picks one of them and
`align_batch` casts the others to it.  A cast with default options makes NULL
of what it cannot read, so a value is kept when its text is that of a value of
the type that was picked.
-/

namespace Fuse.Engine

open Foundation Fuse.Core List ArrowKernels

inductive PlainCell where
  | int (n : Int)
  | text (s : Str)
  | bool (b : Bool)
  deriving DecidableEq, Repr

inductive PlainKind where
  | integer (low high : Int)
  | text
  | truth
  deriving DecidableEq, Repr

def unsignedTypes : List (Str × Int) :=
  [("UInt8".toList, 255), ("UInt16".toList, 65535),
    ("UInt32".toList, 4294967295), ("UInt64".toList, 18446744073709551615)]

def plainKind : DataType → Option PlainKind
  | .boolean => some .truth
  | .int8 => some (.integer (-128) 127)
  | .int16 => some (.integer (-32768) 32767)
  | .int32 => some (.integer (-2147483648) 2147483647)
  | .int64 => some (.integer (-9223372036854775808) 9223372036854775807)
  | .utf8 => some .text
  | .other name => (unsignedTypes.lookup name).map (.integer 0 ·)
  | _ => none

class TextReads where
  readInt : Int → Int → Str → Option Int
  readBool : Str → Option Bool
  readInt_range : ∀ {low high s n}, readInt low high s = some n → low ≤ n ∧
    n ≤ high
  readInt_ofInt : ∀ {low high n}, low ≤ n → n ≤ high →
    readInt low high (Str.ofInt n) = some n
  readBool_boolText : ∀ b, readBool (boolText b) = some b

namespace PlainCell

def shown : PlainCell → Str
  | int n => Str.ofInt n
  | text s => s
  | bool b => boolText b

def HasKind : PlainKind → PlainCell → Prop
  | .integer low high, int n => low ≤ n ∧ n ≤ high
  | .text, text _ => True
  | .truth, bool _ => True
  | _, _ => False

variable [TextReads]

def cast : PlainKind → PlainCell → Option PlainCell
  | .integer low high, int n =>
    if low ≤ n ∧ n ≤ high then some (int n) else none
  | .integer low high, text s => (TextReads.readInt low high s).map int
  | .integer _ _, bool b => some (int (if b then 1 else 0))
  | .text, c => some (text c.shown)
  | .truth, int n => some (bool (n ≠ 0))
  | .truth, text s => (TextReads.readBool s).map bool
  | .truth, bool b => some (bool b)

end PlainCell

def TextOf (kind : PlainKind) (s : Str) : Prop :=
  ∃ c : PlainCell, c.HasKind kind ∧ c.shown = s

theorem boolText_ne_ofInt (b : Bool) (n : Int) : boolText b ≠ Str.ofInt n := by
  have hdigits : ∀ m, boolText b ≠ Str.ofNat m := by
    intro m h
    cases b
    · exact Str.ofNat_ne_cons (by decide) m _ h.symm
    · exact Str.ofNat_ne_cons (by decide) m _ h.symm
  unfold Str.ofInt
  split
  · cases b <;> simp [boolText]
  · exact hdigits _

private theorem unsignedTypes_pos {name : Str} {high : Int}
    (h : unsignedTypes.lookup name = some high) : 1 ≤ high := by
  have hall : ∀ entry ∈ unsignedTypes, 1 ≤ entry.2 := by decide
  obtain ⟨before, after, hsplit, -⟩ := lookup_eq_some_iff.mp h
  exact hall (name, high) (by simp [hsplit])

theorem bits_in_range {type : DataType} {low high : Int}
    (h : plainKind type = some (.integer low high)) : low ≤ 0 ∧ 1 ≤ high := by
  cases type with
  | other name =>
    obtain ⟨max, hmax, heq⟩ := Option.map_eq_some_iff.mp h
    cases heq
    exact ⟨le_refl _, unsignedTypes_pos hmax⟩
  | _ => cases h <;> decide

section Casts

variable [TextReads] {type : DataType} {kind : PlainKind} {c c' : PlainCell}

theorem PlainCell.cast_hasKind (hkind : plainKind type = some kind)
    (h : c.cast kind = some c') : c'.HasKind kind := by
  cases kind with
  | integer low high =>
    cases c with
    | int n =>
      obtain ⟨hrange, heq⟩ := Option.ite_none_right_eq_some.mp h
      cases heq
      exact hrange
    | text s =>
      obtain ⟨n, hn, rfl⟩ := Option.map_eq_some_iff.mp h
      exact TextReads.readInt_range hn
    | bool b =>
      cases h
      have := bits_in_range hkind
      cases b <;> simp [HasKind] <;> omega
  | text =>
    cases h
    trivial
  | truth =>
    cases c with
    | text s =>
      obtain ⟨b, -, rfl⟩ := Option.map_eq_some_iff.mp h
      trivial
    | _ =>
      cases h
      trivial

theorem PlainCell.cast_of_textOf (h : TextOf kind c.shown) :
    ∃ c', c.cast kind = some c' ∧ c'.shown = c.shown := by
  obtain ⟨d, hd, hshown⟩ := h
  cases kind with
  | integer low high =>
    cases d with
    | int n =>
      cases c with
      | int m =>
        cases Str.ofInt_injective hshown
        exact ⟨int n, if_pos hd, rfl⟩
      | text s =>
        obtain rfl : s = Str.ofInt n := hshown.symm
        refine ⟨int n, ?_, rfl⟩
        simp [cast, TextReads.readInt_ofInt hd.1 hd.2]
      | bool b => exact absurd hshown.symm (boolText_ne_ofInt b n)
    | _ => cases hd
  | text => exact ⟨text c.shown, rfl, rfl⟩
  | truth =>
    cases d with
    | bool b =>
      cases c with
      | int m => exact absurd hshown (boolText_ne_ofInt b m)
      | text s =>
        obtain rfl : s = boolText b := hshown.symm
        refine ⟨bool b, ?_, rfl⟩
        simp [cast, TextReads.readBool_boolText]
      | bool b' => exact ⟨bool b', rfl, rfl⟩
    | _ => cases hd

end Casts

section ColumnType

def signedWidth : DataType → Nat
  | .int8 => 8
  | .int16 => 16
  | .int32 => 32
  | .int64 => 64
  | _ => 0

def widerSigned (type next : DataType) : DataType :=
  if signedWidth type ≠ 0 ∧ signedWidth type < signedWidth next then next
  else type

def columnType : List DataType → DataType
  | [] => .other []
  | first :: rest => rest.foldl widerSigned first

variable {type next : DataType}

theorem widerType_plain (h : (plainKind type).isSome)
    (h' : (plainKind next).isSome) :
    widerType type next = widerSigned type next := by
  cases type <;> cases next <;> first
    | rfl
    | exact absurd h (by decide)
    | exact absurd h' (by decide)
    | simp [widerType, widerSigned, signedWidth]

private theorem isSome_widerSigned (h : (plainKind type).isSome)
    (h' : (plainKind next).isSome) :
    (plainKind (widerSigned type next)).isSome := by
  unfold widerSigned
  split
  · exact h'
  · exact h

theorem widestType_plain {types : List DataType}
    (h : ∀ t ∈ types, (plainKind t).isSome) :
    widestType types = columnType types ∧
    (types ≠ [] → (plainKind (columnType types)).isSome) := by
  cases types with
  | nil => simp [widestType, columnType]
  | cons first rest =>
    obtain ⟨hfirst, hrest⟩ := forall_mem_cons.mp h
    simp only [widestType, columnType]
    clear h
    induction rest generalizing first with
    | nil => exact ⟨rfl, fun _ => hfirst⟩
    | cons next rest ih =>
      obtain ⟨hnext, hrest⟩ := forall_mem_cons.mp hrest
      rw [foldl_cons, foldl_cons, widerType_plain hfirst hnext]
      have := ih (widerSigned first next)
        (isSome_widerSigned hfirst hnext) hrest
      exact ⟨this.1, fun _ => this.2 (by simp)⟩

end ColumnType

section Union

variable {V : Type} [ArrowKernels V]

/-- Kernels that show and cast the values of the plain types as Arrow does with
default options. -/
structure DefaultCasts (V : Type) [ArrowKernels V] [TextReads] where
  view : V → PlainCell
  display : ∀ v, display v = (view v).shown
  canCast : ∀ {source target}, (plainKind source).isSome →
    (plainKind target).isSome → canCast V source target = true
  castValue : ∀ {source target sourceKind kind v},
    plainKind source = some sourceKind → plainKind target = some kind →
      (view v).HasKind sourceKind →
        (castValue source target v).map view = (view v).cast kind

def RowKept (schema schema' : Schema) (row row' : Row V) : Prop :=
  ∀ field v, (field, some v) ∈ schema.zip row → ∃ field' w,
    (field', some w) ∈ schema'.zip row' ∧ field'.name = field.name ∧
      display w = display v

def BatchKept (batch batch' : RecordBatch V) : Prop :=
  List.Forall₂ (RowKept batch.schema batch'.schema) batch.rows batch'.rows

structure PlainBatch [TextReads] (K : DefaultCasts V) (batch : RecordBatch V) :
    Prop where
  types : ∀ field ∈ batch.schema, (plainKind field.dataType).isSome
  cells : ∀ row ∈ batch.rows, ∀ field v kind,
    (field, some v) ∈ batch.schema.zip row →
    plainKind field.dataType = some kind → (K.view v).HasKind kind

/-- The text of every cell is one of the column's type, and that of the first
cell of its name. -/
def ValuesFit (all : List (RecordBatch V)) : Prop :=
  ∀ b ∈ all, ∀ row ∈ b.rows, ∀ field v, (field, some v) ∈ b.schema.zip row →
    (∃ kind ∈ plainKind
      (columnType (typesNamed (all.map (·.schema)).flatten field.name)),
      TextOf kind (display v)) ∧
    (cellNamed b.schema row field.name).map display = some (display v)

variable {schema : Schema} {row : Row V}

omit [ArrowKernels V] in
theorem mem_zip_of_getElem? {i : Nat} {source : Field} {u : V}
    (hsource : schema[i]? = some source)
    (hcell : row[i]?.join = some u) : (source, some u) ∈ schema.zip row := by
  apply mem_of_getElem? (i := i)
  rw [getElem?_zip_eq_some]
  exact ⟨hsource, Option.join_eq_some_iff.mp hcell⟩

theorem alignCell_eq_some {field : Field} {w : V} :
    alignCell schema row field = some w ↔ ∃ i source u,
    schema.indexOf field.name = some i ∧
        schema[i]? = some source ∧ row[i]?.join = some u ∧
        (if source.dataType = field.dataType then some u
          else castValue source.dataType field.dataType u) = some w := by
  unfold alignCell
  constructor
  · intro h
    split at h
    · cases h
    rename_i i hi
    split at h
    · next u source hu hsource => exact ⟨i, source, u, hi, hsource, hu, h⟩
    · cases h
  · rintro ⟨i, source, u, hi, hsource, hu, h⟩
    simp only [hi, hu, hsource]
    exact h

section Aligned

variable [TextReads] {K : DefaultCasts V} {batch : RecordBatch V} {row : Row V}
  {field : Field} {kind : PlainKind} {v w : V}

theorem PlainBatch.castValue (hplain : PlainBatch K batch)
    (hrow : row ∈ batch.rows)
    {source : Field} (hcell : (source, some v) ∈ batch.schema.zip row)
    (hkind : plainKind field.dataType = some kind) :
    (castValue source.dataType field.dataType v).map K.view =
      (K.view v).cast kind := by
  obtain ⟨sourceKind, hsource⟩ := Option.isSome_iff_exists.mp
    (hplain.types source (of_mem_zip hcell).1)
  exact K.castValue hsource hkind
    (hplain.cells row hrow source v sourceKind hcell hsource)

theorem alignCell_textOf (hplain : PlainBatch K batch) (hrow : row ∈ batch.rows)
    (hkind : plainKind field.dataType = some kind)
    (h : alignCell batch.schema row field = some w) :
    TextOf kind (display w) := by
  obtain ⟨i, source, u, hi, hsource, hu, h⟩ := alignCell_eq_some.mp h
  have hcell := mem_zip_of_getElem? hsource hu
  rw [K.display]
  refine ⟨K.view w, ?_, rfl⟩
  split at h
  · rename_i htype
    cases h
    exact hplain.cells row hrow source _ kind hcell (htype ▸ hkind)
  · have hcast := hplain.castValue hrow hcell hkind
    rw [h] at hcast
    exact PlainCell.cast_hasKind hkind hcast.symm

theorem alignCell_of_textOf (hplain : PlainBatch K batch)
    (hrow : row ∈ batch.rows) (hkind : plainKind field.dataType = some kind)
    (hfirst : cellNamed batch.schema row field.name = some v)
    (htext : TextOf kind (display v)) :
    ∃ w, alignCell batch.schema row field = some w ∧
      display w = display v := by
  obtain ⟨i, hi, hv⟩ := Option.bind_eq_some_iff.mp hfirst
  obtain ⟨source, -, hsource, -⟩ := field_of_indexOf hi
  have hcell := mem_zip_of_getElem? hsource hv
  by_cases htype : source.dataType = field.dataType
  · exact ⟨v, alignCell_eq_some.mpr ⟨i, source, v, hi, hsource, hv,
      if_pos htype⟩,
      rfl⟩
  have hcast := hplain.castValue hrow hcell hkind
  rw [K.display] at htext
  obtain ⟨c, hc, hshown⟩ := PlainCell.cast_of_textOf htext
  rw [hc] at hcast
  obtain ⟨w, hw, rfl⟩ := Option.map_eq_some_iff.mp hcast
  refine ⟨w, alignCell_eq_some.mpr ⟨i, source, v, hi, hsource, hv, ?_⟩, ?_⟩
  · rw [if_neg htype, hw]
  · rw [K.display, K.display, hshown]

end Aligned

theorem rowKept_aligned_iff {schemas : List Schema} (hmem : schema ∈ schemas) :
    RowKept schema (unionSchema schemas) row
    ((unionSchema schemas).map (alignCell schema row)) ↔
      ∀ field v, (field, some v) ∈ schema.zip row → ∃ w,
        alignCell schema row (unionField schemas field.name) = some w ∧
          display w = display v := by
  have hzip : ∀ field' w, (field', some w) ∈ (unionSchema schemas).zip
      ((unionSchema schemas).map (alignCell schema row)) ↔
        ∃ name ∈ columnNames schemas, field' = unionField schemas name ∧
          alignCell schema row (unionField schemas name) = some w := by
    intro field' w
    rw [← map_prod_left_eq_zip, unionSchema_eq, map_map]
    simp only [mem_map, Function.comp_apply, Prod.mk.injEq]
    constructor
    · rintro ⟨name, hname, rfl, hw⟩
      exact ⟨name, hname, rfl, hw⟩
    · rintro ⟨name, hname, rfl, hw⟩
      exact ⟨name, hname, rfl, hw⟩
  refine forall_congr' fun field => forall_congr' fun v =>
    forall_congr' fun hcell => ?_
  constructor
  · rintro ⟨field', w, hw, hname, hdisplay⟩
    obtain ⟨name, -, rfl, hcast⟩ := (hzip field' w).mp hw
    obtain rfl : name = field.name := hname
    exact ⟨w, hcast, hdisplay⟩
  · rintro ⟨w, hw, hdisplay⟩
    refine ⟨unionField schemas field.name, w, (hzip _ _).mpr ?_, rfl, hdisplay⟩
    refine ⟨field.name, ?_, rfl, hw⟩
    exact mem_columnNames hmem (of_mem_zip hcell).1

theorem batchKept_refl (batch : RecordBatch V) : BatchKept batch batch :=
  forall₂_same.mpr fun _ _ field v hcell => ⟨field, v, hcell, rfl, rfl⟩

section Kept

variable [TextReads] {K : DefaultCasts V} {all : List (RecordBatch V)}

variable {b : RecordBatch V}

theorem kind_unionField (hplain : ∀ b ∈ all, PlainBatch K b) (hb : b ∈ all)
    {field : Field} (hfield : field ∈ b.schema) :
    ∃ kind, plainKind (unionField (all.map (·.schema)) field.name).dataType =
    some kind ∧ plainKind (columnType
        (typesNamed (all.map (·.schema)).flatten field.name)) = some kind := by
  have htypes : ∀ t ∈ typesNamed (all.map (·.schema)).flatten field.name,
      (plainKind t).isSome := by
    intro t ht
    obtain ⟨other, hother, rfl⟩ := mem_map.mp ht
    obtain ⟨schema, hschema, hmem⟩ := mem_flatten.mp (mem_of_mem_filter hother)
    obtain ⟨c, hc, rfl⟩ := mem_map.mp hschema
    exact (hplain c hc).types other hmem
  obtain ⟨hwidest, hsome⟩ := widestType_plain htypes
  have hne : typesNamed (all.map (·.schema)).flatten field.name ≠ [] := by
    rw [Ne, typesNamed_eq_nil, not_not]
    exact mem_map_of_mem (mem_flatten.mpr ⟨b.schema, mem_map_of_mem hb, hfield⟩)
  obtain ⟨kind, hkind⟩ := Option.isSome_iff_exists.mp (hsome hne)
  exact ⟨kind, (congrArg plainKind hwidest).trans hkind, hkind⟩

theorem castable_plain (hplain : ∀ b ∈ all, PlainBatch K b) (hb : b ∈ all) :
    castable V b.schema (unionSchema (all.map (·.schema))) = true := by
  rw [castable, all_eq_true]
  intro field hfield
  rw [unionSchema_eq] at hfield
  obtain ⟨name, -, rfl⟩ := mem_map.mp hfield
  cases hindex : b.schema.indexOf name with
  | none => simp [hindex]
  | some i =>
    obtain ⟨source, hsource, hat, rfl⟩ := field_of_indexOf hindex
    obtain ⟨kind, hkind, -⟩ := kind_unionField hplain hb hsource
    have hcan := K.canCast ((hplain b hb).types source hsource)
      (Option.isSome_iff_exists.mpr ⟨kind, hkind⟩)
    simp [hindex, hat, hcan]

theorem batchKept_aligned_iff (hplain : ∀ b ∈ all, PlainBatch K b)
    (hnullable : ∀ f ∈ unionSchema (all.map (·.schema)), f.nullable = true)
    (hb : b ∈ all) :
    BatchKept b (alignedBatch (unionSchema (all.map (·.schema))) hnullable b) ↔
      ∀ row ∈ b.rows, ∀ field v, (field, some v) ∈ b.schema.zip row →
        (∃ kind ∈ plainKind
          (columnType (typesNamed (all.map (·.schema)).flatten field.name)),
          TextOf kind (display v)) ∧
        (cellNamed b.schema row field.name).map display = some (display v) := by
  unfold BatchKept
  simp only [alignedBatch, forall₂_map_right_iff, forall₂_same]
  refine forall_congr' fun row => forall_congr' fun hrow => ?_
  rw [rowKept_aligned_iff (mem_map_of_mem hb)]
  constructor
  · intro hkept field v hcell
    obtain ⟨kind, hkind, hcolumn⟩ :=
      kind_unionField hplain hb (of_mem_zip hcell).1
    obtain ⟨w, hw, hdisplay⟩ := hkept field v hcell
    refine ⟨⟨kind, hcolumn, hdisplay ▸ alignCell_textOf
      (hplain b hb) hrow hkind hw⟩, ?_⟩
    -- the first cell of the name is aligned to the same cell
    obtain ⟨i, source, u, hi, hsource, hu, -⟩ := alignCell_eq_some.mp hw
    obtain ⟨source', -, hsource', hname⟩ := field_of_indexOf hi
    cases hsource.symm.trans hsource'
    obtain ⟨w', hw', hdisplay'⟩ :=
      hkept source u (mem_zip_of_getElem? hsource hu)
    rw [hname, unionField_name] at hw'
    cases hw.symm.trans hw'
    rw [unionField_name] at hi
    rw [cellNamed, hi, Option.bind_some, hu, Option.map_some, ← hdisplay',
      hdisplay]
  · intro hfit field v hcell
    obtain ⟨kind, hkind, hcolumn⟩ :=
      kind_unionField hplain hb (of_mem_zip hcell).1
    obtain ⟨⟨kind', hkind', htext⟩, hfirst⟩ := hfit field v hcell
    obtain ⟨u, hu, hdisplay⟩ := Option.map_eq_some_iff.mp hfirst
    cases hcolumn.symm.trans hkind'
    obtain ⟨w, hw, hshown⟩ :=
      alignCell_of_textOf (hplain b hb) hrow hkind hu (hdisplay ▸ htext)
    exact ⟨w, hw, hshown.trans hdisplay⟩

/-- A union keeps every value when the schemas are the same, or the values fit
the type of their column. -/
theorem union_keeps_iff (K : DefaultCasts V)
    {sets : List (List (RecordBatch V))}
    (hplain : ∀ b ∈ sets.flatten, PlainBatch K b) :
    ∃ out, unionBatches sets = .ok out ∧
    (List.Forall₂ BatchKept sets.flatten out ↔
        (∀ b ∈ sets.flatten, ∀ c ∈ sets.flatten, b.schema = c.schema) ∨
          ValuesFit sets.flatten) := by
  have hsame_iff : allSame (sets.flatten.map (·.schema)) = true ↔
      ∀ b ∈ sets.flatten, ∀ c ∈ sets.flatten, b.schema = c.schema := by
    rw [allSame_iff]
    simp only [forall_mem_map]
  by_cases hsame : allSame (sets.flatten.map (·.schema)) = true
  · refine ⟨sets.flatten, by simp only [unionBatches, hsame, if_true], ?_⟩
    exact iff_of_true (forall₂_same.mpr fun b _ => batchKept_refl b)
      (.inl (hsame_iff.mp hsame))
  have hnullable : ∀ f ∈ unionSchema (sets.flatten.map (·.schema)),
      f.nullable = true :=
      nullable_unionSchema (length_of_not_allSame hsame)
  refine ⟨_, (if_neg hsame).trans (alignAll_eq hnullable
    (unionSchema_ne_nil (columnNames_ne_nil hsame)) fun b hb =>
      castable_plain hplain hb), ?_⟩
  rw [forall₂_map_right_iff, forall₂_same,
    or_iff_right (mt hsame_iff.mpr hsame)]
  exact forall_congr' fun b => forall_congr' fun hb =>
    batchKept_aligned_iff hplain hnullable hb

end Kept

end Union

section Examples

def readDecimal : Str → Option Int
  | '-' :: digits => (Str.parseDigits digits).map fun n : Nat => -(n : Int)
  | digits => (Str.parseDigits digits).map Int.ofNat

theorem readDecimal_ofInt (n : Int) : readDecimal (Str.ofInt n) = some n := by
  unfold Str.ofInt
  split
  · simp only [readDecimal, Str.parseDigits_ofNat, Option.map_some,
      Option.some.injEq]
    omega
  have hplain : readDecimal (Str.ofNat n.natAbs) =
      (Str.parseDigits (Str.ofNat n.natAbs)).map Int.ofNat := by
    unfold readDecimal
    split
    · next digits heq => exact absurd heq (Str.ofNat_ne_cons (by decide) _ _)
    · rfl
  rw [hplain, Str.parseDigits_ofNat, Option.map_some, Option.some.injEq,
    Int.ofNat_eq_natCast]
  omega

@[reducible] def decimalReads : TextReads where
  readInt low high s := (readDecimal s).filter fun n => low ≤ n ∧ n ≤ high
  readBool s := if s = boolText true then some true
    else if s = boolText false then some false else none
  readInt_range h := by simpa using (Option.filter_eq_some_iff.mp h).2
  readInt_ofInt hlow hhigh := by simp [readDecimal_ofInt, Option.filter, hlow,
    hhigh]
  readBool_boolText b := by cases b <;> rfl

attribute [local instance] decimalReads

@[reducible] def plainKernels : ArrowKernels PlainCell where
  ofText _ text := .text text
  ofF64 _ _ := .text []
  display := PlainCell.shown
  debug _ _ := []
  canCast source target := (plainKind source).isSome &&
    (plainKind target).isSome
  castValue _ target v := (plainKind target).bind fun kind => v.cast kind
  lexsort _ _ := none
  errorText _ := "arrow error"

attribute [local instance] plainKernels

def plainCasts : DefaultCasts PlainCell where
  view := id
  display _ := rfl
  canCast h h' := by simp [canCast, h, h']
  castValue _ h' _ := by simp [castValue, h']

def cellBatch (type : DataType) (cell : PlainCell) : RecordBatch PlainCell where
  schema := [{ name := "x", dataType := type, nullable := true }]
  rows := [[some cell]]
  fits := by simp [rowFits]

theorem cellBatch_plain {type : DataType} {kind : PlainKind} {cell : PlainCell}
    (htype : plainKind type = some kind) (hcell : cell.HasKind kind) :
    PlainBatch plainCasts (cellBatch type cell) where
  types := by simp [cellBatch, htype]
  cells := by
    simp only [cellBatch, mem_singleton, forall_eq, zip_cons_cons,
      zip_nil_right, Prod.mk.injEq, Option.some.injEq]
    rintro field v k ⟨rfl, rfl⟩ hkind
    cases htype.symm.trans hkind
    exact hcell

def textFirst : List (List (RecordBatch PlainCell)) :=
  [[cellBatch .utf8 (.text "abc".toList)], [cellBatch .int64 (.int 7)]]

theorem text_first_kept : ∃ out, unionBatches textFirst = .ok out ∧
    List.Forall₂ BatchKept textFirst.flatten out := by
  have hplain : ∀ b ∈ textFirst.flatten, PlainBatch plainCasts b := by
    simp only [textFirst, flatten_cons, flatten_nil, cons_append, nil_append,
      forall_mem_cons]
    exact ⟨cellBatch_plain rfl trivial,
      cellBatch_plain rfl ⟨by decide, by decide⟩, by simp⟩
  obtain ⟨out, hout, hiff⟩ := union_keeps_iff plainCasts hplain
  refine ⟨out, hout, hiff.mpr (.inr ?_)⟩
  have htype : plainKind (columnType (typesNamed
      (textFirst.flatten.map (·.schema)).flatten "x")) = some .text := by
    decide +kernel
  intro b hb row hrow field v hcell
  have hcases : b = cellBatch .utf8 (.text "abc".toList) ∨
      b = cellBatch .int64 (.int 7) := by
    simpa [textFirst] using hb
  have hfield : field.name = "x" := by
    rcases hcases with rfl | rfl <;> simp_all [cellBatch]
  refine ⟨⟨.text, hfield ▸ htype, .text _, trivial, rfl⟩, ?_⟩
  rcases hcases with rfl | rfl <;>
    simp_all [cellBatch, cellNamed, Schema.indexOf]

def integerFirst : List (List (RecordBatch PlainCell)) :=
  [[cellBatch .int64 (.int 7)], [cellBatch .utf8 (.text "abc".toList)]]

theorem text_lost_to_integer :
    (unionBatches integerFirst).map (·.map (·.rows)) =
      .ok [[[some (.int 7)]], [[none]]] ∧ integerFirst.flatten.map (·.rows) =
        [[[some (.int 7)]], [[some (.text "abc".toList)]]] := by
  decide +kernel

end Examples

end Fuse.Engine
