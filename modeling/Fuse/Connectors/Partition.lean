import Fuse.Connectors.SqlText
import Fuse.Core.TypedCells
import Mathlib.Data.List.AList

/-!
# Partition pruning

`fuse-connectors/s3/src/partition.rs`: the `key=value` segments of an object's
path, and the test that skips an object when its path contradicts the filter.
-/

namespace Fuse.Connectors

open Foundation Fuse.Core List

abbrev Partitions := AList fun _ : Str => Str

def addSegment (map : Partitions) (segment : Str) : Partitions :=
  match Str.splitOnce "=" segment with
  | some (k, v) =>
    if !k.isEmpty && !v.isEmpty then map.insert k v else map
  | none => map

def extractPartitions (key : Str) : Partitions :=
  (Str.splitBy (· = '/') key).foldl addSegment ∅

section Pruning

variable [FloatText]

def scalarToStr : ScalarValue → Option Str
  | .utf8 s => some s
  | .int64 n => some (Str.ofInt n.toInt)
  | .float64 f => some (FloatText.display f)
  | .boolean b => some (if b then "true" else "false")
  | .null => none

def compareStr (partitionVal : Str) (op : ComparisonOp) (filterVal : Str) :
    Bool :=
  match op with
  | .eq => partitionVal == filterVal
  | .neq => partitionVal != filterVal
  | .lt => (compare partitionVal filterVal).isLT
  | .lte => (compare partitionVal filterVal).isLE
  | .gt => (compare partitionVal filterVal).isGT
  | .gte => (compare partitionVal filterVal).isGE
  -- patterns never prune
  | .like => true
  | .iLike => true
  | .contains => true

/-- Whether an object with these partition values may hold a row of the
filter. -/
def partitionMatches (partitions : Partitions) : FilterExpr → Bool
  | .and l r => partitionMatches partitions l && partitionMatches partitions r
  | .or l r => partitionMatches partitions l || partitionMatches partitions r
  | .not (.comparison field .eq value) =>
    (partitions.lookup field).all fun pv =>
      (scalarToStr value).all fun fv => pv != fv
  | .not _ => true
  | .comparison field op value =>
    (partitions.lookup field).all fun pv =>
      (scalarToStr value).all fun fv => compareStr pv op fv
  | .inList field values =>
    (partitions.lookup field).all fun pv =>
      values.any fun v => (scalarToStr v).all fun fv => fv == pv
  | .isNull field => !(partitions.lookup field).isSome
  | .isNotNull field => (partitions.lookup field).isSome

end Pruning

/-! ## Soundness -/

def isTextOrNull : ScalarValue → Bool
  | .utf8 _ => true
  | .null => true
  | _ => false

/-- Literals are texts or NULL, and `IS NOT NULL` asks for a partition column
only. -/
def OverTexts (partitions : Partitions) : FilterExpr → Prop
  | .and l r => OverTexts partitions l ∧ OverTexts partitions r
  | .or l r => OverTexts partitions l ∧ OverTexts partitions r
  | .not inner => OverTexts partitions inner
  | .comparison _ _ value => isTextOrNull value = true
  | .inList _ values => ∀ v ∈ values, isTextOrNull v = true
  | .isNull _ => True
  | .isNotNull field => (partitions.lookup field).isSome = true

def InPartition (partitions : Partitions) (row : Str → ScalarValue) : Prop :=
  ∀ k v, partitions.lookup k = some v → row k = .utf8 v

section Soundness

variable [Unicode] [FloatOps] [FloatText] {partitions : Partitions}
  {row : Str → ScalarValue}

omit [Unicode] [FloatOps] [FloatText] in
theorem byOrder_compareStr {op : ComparisonOp} (hop : op.isOrder = true)
    (pv fv : Str) :
    scalarCompare.byOrder op (compare pv fv) =
      .ofBool (compareStr pv op fv) := by
  have heq : (compare pv fv).isEq = (pv == fv) := by
    rw [Bool.eq_iff_iff, Ordering.isEq_iff_eq_eq, beq_iff_eq]
    exact Std.LawfulEqCmp.compare_eq_iff_eq
  have hne : (compare pv fv).isNe = (pv != fv) := by
    rw [bne, ← heq]
    cases compare pv fv <;> rfl
  cases op <;> first
    | cases hop; done
    | rfl
    | exact congrArg Truth.ofBool heq
    | exact congrArg Truth.ofBool hne

theorem comparison_pruned {field : Str} {op : ComparisonOp}
    {value : ScalarValue} (hrow : InPartition partitions row)
    (hvalue : isTextOrNull value = true)
    (h : ((partitions.lookup field).all fun pv =>
      (scalarToStr value).all fun fv => compareStr pv op fv) = false) :
    typedCells.filterTruth row (.comparison field op value) = .ff := by
  cases hlookup : partitions.lookup field with
  | none => simp [hlookup] at h
  | some pv =>
    cases value with
    | null => simp [hlookup, scalarToStr] at h
    | boolean b | int64 n | float64 f => cases hvalue
    | utf8 fv =>
      have hpruned : compareStr pv op fv = false := by
        simpa [hlookup, scalarToStr] using h
      have hop : op.isOrder = true := by
        cases op <;> first | rfl | cases hpruned
      have hcompare : typedCompare op (.utf8 pv) (.utf8 fv) =
        _ := byOrder_compareStr hop pv fv
      rw [hpruned, ← hrow field pv hlookup] at hcompare
      cases op <;> first | exact hcompare | cases hop

theorem inList_pruned {field : Str} {values : List ScalarValue}
    (hrow : InPartition partitions row)
    (hvalues : ∀ v ∈ values, isTextOrNull v = true)
    (h : ((partitions.lookup field).all fun pv =>
      values.any fun v => (scalarToStr v).all fun fv => fv == pv) = false) :
    typedCells.filterTruth row (.inList field values) ≠ .tt := by
  cases hlookup : partitions.lookup field with
  | none => simp [hlookup] at h
  | some pv =>
    rw [hlookup, Option.all_some, any_eq_false] at h
    intro htrue
    obtain ⟨v, hv, hsame⟩ := mem_map.mp (Truth.any_eq_tt.mp htrue)
    rw [hrow field pv hlookup] at hsame
    have hv' := hvalues v hv
    have hdiffers := h v hv
    cases v with
    | null => exact absurd rfl hdiffers
    | boolean b | int64 n | float64 f => cases hv'
    | utf8 fv =>
      have heq : (compare pv fv).isEq = true := Truth.ofBool_eq_tt.mp hsame
      cases Std.LawfulEqCmp.compare_eq_iff_eq.mp
        (Ordering.isEq_iff_eq_eq.mp heq)
      exact hdiffers (beq_self_eq_true _)

theorem negated_pruned {inner : FilterExpr} (hrow : InPartition partitions row)
    (hover : OverTexts partitions inner)
    (h : partitionMatches partitions (.not inner) = false) :
    typedCells.filterTruth row inner = .tt := by
  cases inner with
  | comparison field op value =>
    have hop : op = .eq := by cases op <;> first | rfl | cases h
    subst hop
    have heq : ((partitions.lookup field).all fun pv =>
        (scalarToStr value).all fun fv => compareStr pv .neq fv) = false := h
    have hneq := comparison_pruned hrow hover heq
    have hnot : typedCells.filterTruth row (.comparison field .neq value) =
        (typedCells.filterTruth row (.comparison field .eq value)).not :=
      typedCompare_neq
    rwa [hnot, Truth.not_eq_ff] at hneq
  | _ => cases h

theorem pruned_not_true {filter : FilterExpr}
    (hrow : InPartition partitions row) (hover : OverTexts partitions filter)
    (h : partitionMatches partitions filter = false) :
    typedCells.filterTruth row filter ≠ .tt := by
  induction filter with
  | and l r ihl ihr =>
    intro htrue
    obtain ⟨hl, hr⟩ := Truth.and_eq_tt.mp htrue
    rcases Bool.and_eq_false_iff.mp h with h | h
    · exact ihl hover.1 h hl
    · exact ihr hover.2 h hr
  | or l r ihl ihr =>
    intro htrue
    obtain ⟨hfalseL, hfalseR⟩ := Bool.or_eq_false_iff.mp h
    rcases Truth.or_eq_tt.mp htrue with hl | hr
    · exact ihl hover.1 hfalseL hl
    · exact ihr hover.2 hfalseR hr
  | not inner _ =>
    have hinner : typedCells.filterTruth row inner = .tt :=
      negated_pruned hrow hover h
    intro htrue
    exact absurd (hinner.symm.trans (Truth.not_eq_tt.mp htrue)) (by decide)
  | comparison field op value =>
    rw [comparison_pruned hrow hover h]
    decide
  | inList field values => exact inList_pruned hrow hover h
  | isNull field =>
    have hsome : (partitions.lookup field).isSome = true := by
      simpa [partitionMatches] using h
    obtain ⟨pv, hlookup⟩ := Option.isSome_iff_exists.mp hsome
    change Truth.ofBool (typedCells.isNull (row field)) ≠ .tt
    rw [hrow field pv hlookup]
    change Truth.ofBool false ≠ .tt
    decide
  | isNotNull field =>
    have hsome : (partitions.lookup field).isSome = true := hover
    exact absurd (hsome.symm.trans h) (by decide)

/-- An object is skipped only if the filter is true on none of its rows. -/
theorem partition_pruning_sound (key : Str) (filter : FilterExpr)
    (row : Str → ScalarValue) (hover : OverTexts (extractPartitions key) filter)
    (hrow : InPartition (extractPartitions key) row)
    (hpruned : partitionMatches (extractPartitions key) filter = false) :
    typedCells.filterTruth row filter ≠ .tt :=
  pruned_not_true hrow hover hpruned

end Soundness

/-! ## Conditions joined by `AND` and `OR` -/

inductive AndOr (α : Type) where
  | leaf (a : α)
  | and (l r : AndOr α)
  | or (l r : AndOr α)

namespace AndOr

variable {α : Type}

def leaves : AndOr α → List α
  | leaf a => [a]
  | and l r => l.leaves ++ r.leaves
  | or l r => l.leaves ++ r.leaves

def filter (f : α → FilterExpr) : AndOr α → FilterExpr
  | leaf a => f a
  | and l r => .and (l.filter f) (r.filter f)
  | or l r => .or (l.filter f) (r.filter f)

def Holds (p : α → Prop) : AndOr α → Prop
  | leaf a => p a
  | and l r => l.Holds p ∧ r.Holds p
  | or l r => l.Holds p ∨ r.Holds p

variable {p q : α → Prop} {t : AndOr α}

theorem Holds.imp (hp : t.Holds p) (h : ∀ a ∈ t.leaves, p a → q a) :
    t.Holds q := by
  induction t with
  | leaf a => exact h a (by simp [leaves]) hp
  | and l r ihl ihr =>
    simp only [leaves, mem_append] at h
    exact ⟨ihl hp.1 fun a ha => h a (.inl ha), ihr hp.2 fun a ha =>
      h a (.inr ha)⟩
  | or l r ihl ihr =>
    simp only [leaves, mem_append] at h
    exact Or.imp (ihl · fun a ha => h a (.inl ha))
      (ihr · fun a ha => h a (.inr ha)) hp

theorem holds_congr (h : ∀ a ∈ t.leaves, p a ↔ q a) : t.Holds p ↔ t.Holds q :=
  ⟨fun hp => hp.imp fun a ha => (h a ha).mp, fun hq => hq.imp fun a ha =>
    (h a ha).mpr⟩

theorem partitionMatches_filter [FloatText] {partitions : Partitions}
    {f : α → FilterExpr} :
    partitionMatches partitions (t.filter f) = true ↔
      t.Holds fun a => partitionMatches partitions (f a) = true := by
  induction t with
  | leaf a => rfl
  | and l r ihl ihr | or l r ihl ihr =>
    simp [filter, Holds, partitionMatches, ihl, ihr]

end AndOr

section Texts

variable [FloatText]

/-- The values of a path, and a literal as its text. -/
def partitionCells : CellModel (Option Str) where
  isNull c := c.isNone
  ofScalar := scalarToStr
  compare op
    | none, _ | _, none => .unknown
    | some a, some b => scalarCompare.byOrder op (compare a b)
  text := id
  compare_converse op a b := by
    cases a <;> cases b <;> try rfl
    simp only
    rw [← byOrder_converse op, ← Std.OrientedCmp.eq_swap]
  text_utf8 _ := rfl

variable [Unicode] {partitions : Partitions}

def Satisfied (partitions : Partitions) (filter : FilterExpr) : Prop :=
  partitionCells.filterTruth (partitions.lookup ·) filter = .tt

private theorem kept_of_comparison
    {field : Str} {op : ComparisonOp} {value : ScalarValue}
    (h : Satisfied partitions (.comparison field op value)) :
    partitionMatches partitions (.comparison field op value) = true := by
  rw [partitionMatches]
  cases hpv : partitions.lookup field with
  | none => rfl
  | some pv =>
    cases hfv : scalarToStr value with
    | none => rfl
    | some fv =>
      by_cases hop : op.isOrder = true
      · have hcompare : scalarCompare.byOrder op (compare pv fv) = .tt := by
          simp only [Satisfied, CellModel.filterTruth, partitionCells] at h
          cases op <;> first | cases hop; done | simpa [CellModel.satisfies,
            hpv, hfv] using h
        rw [byOrder_compareStr hop] at hcompare
        exact Truth.ofBool_eq_tt.mp hcompare
      · cases op <;> first | rfl | exact absurd rfl hop

private theorem kept_of_satisfied {filter : FilterExpr}
    (h : Satisfied partitions filter) :
    partitionMatches partitions filter = true := by
  induction filter with
  | and l r ihl ihr =>
    obtain ⟨hl, hr⟩ := Truth.and_eq_tt.mp h
    exact Bool.and_eq_true_iff.mpr ⟨ihl hl, ihr hr⟩
  | or l r ihl ihr =>
    exact Bool.or_eq_true_iff.mpr ((Truth.or_eq_tt.mp h).imp ihl ihr)
  | not inner _ =>
    cases inner with
    | comparison field op value =>
      cases op with
      | eq =>
        have hnot : ∀ o, scalarCompare.byOrder .neq o =
          (scalarCompare.byOrder .eq o).not := by decide
        have hneq : Satisfied partitions (.comparison field .neq value) := by
          refine .trans ?_ h
          simp only [CellModel.filterTruth, CellModel.satisfies, partitionCells]
          cases partitions.lookup field <;> cases scalarToStr value
            <;> first | rfl | exact hnot _
        exact kept_of_comparison hneq
      | _ => rfl
    | _ => rfl
  | comparison field op value => exact kept_of_comparison h
  | inList field values =>
    obtain ⟨v, hv, hsame⟩ := mem_map.mp (Truth.any_eq_tt.mp h)
    rw [partitionMatches]
    cases hpv : partitions.lookup field with
    | none => rfl
    | some pv =>
      refine any_eq_true.mpr ⟨v, hv, ?_⟩
      cases hfv : scalarToStr v with
      | none => rfl
      | some fv =>
        have heq : (compare pv fv).isEq = true := by
          simpa [partitionCells, hpv, hfv, scalarCompare.byOrder,
            Truth.ofBool_eq_tt] using hsame
        have := Std.LawfulEqCmp.compare_eq_iff_eq.mp
          (Ordering.isEq_iff_eq_eq.mp heq)
        simp [this]
  | isNull field | isNotNull field =>
    rw [partitionMatches]
    simp only [Satisfied, CellModel.filterTruth, partitionCells] at h
    cases hpv : partitions.lookup field <;> simp_all [Truth.ofBool]

/--
A tree of conditions that the values of the path satisfy and of `IS NOT NULL`
tests on columns that are not in the path keeps the file exactly if the
conditions make it true without the tests.
-/
theorem notNull_kept_iff (key : Str) (tree : AndOr (Str ⊕ FilterExpr))
    (htests : ∀ field, .inl field ∈ tree.leaves →
      (extractPartitions key).lookup field = none)
    (hconditions : ∀ f, .inr f ∈ tree.leaves →
      Satisfied (extractPartitions key) f) :
    partitionMatches (extractPartitions key)
      (tree.filter (Sum.elim .isNotNull id)) = true ↔
      tree.Holds fun a => a.isRight := by
  rw [AndOr.partitionMatches_filter]
  refine AndOr.holds_congr ?_
  rintro (field | f) ha
  · simp [partitionMatches, htests field ha]
  · simp [kept_of_satisfied (hconditions f ha)]

/-! ## Integer partitions -/

/-- The number a partition value writes, perhaps with zeros in front. -/
def decimalValue : Str → Option Int
  | '-' :: digits => (Str.parseDigits digits).map fun n => -(n : Int)
  | digits => (Str.parseDigits digits).map fun n => (n : Int)

inductive IntTest where
  | compare (field : Str) (op : ComparisonOp) (n : Int64)
  | inList (field : Str) (ns : List Int64)

namespace IntTest

def field : IntTest → Str
  | .compare field _ _ => field
  | .inList field _ => field

def isOrder : IntTest → Bool
  | .compare _ op _ => op.isOrder
  | .inList _ _ => true

def toFilter : IntTest → FilterExpr
  | .compare field op n => .comparison field op (.int64 n)
  | .inList field ns => .inList field (ns.map .int64)

/-- The column compares with the literal `n` as `order n` says. -/
def Passes (order : Int64 → Ordering) : IntTest → Prop
  | .compare _ op n => scalarCompare.byOrder op (order n) = .tt
  | .inList _ ns => ∃ n ∈ ns, order n = .eq

omit [Unicode] in
theorem partitionMatches_toFilter {test : IntTest} {v : Str}
    (hop : test.isOrder = true) (h : partitions.lookup test.field = some v) :
    partitionMatches partitions test.toFilter = true ↔
      test.Passes fun n => Ord.compare v (Str.ofInt n.toInt) := by
  cases test with
  | compare field op n =>
    have hlookup : partitions.lookup field = some v := h
    rw [Passes, byOrder_compareStr hop, Truth.ofBool_eq_tt]
    simp [toFilter, partitionMatches, hlookup, scalarToStr]
  | inList field ns =>
    have hlookup : partitions.lookup field = some v := h
    simp only [toFilter, partitionMatches, hlookup, scalarToStr, Passes,
      Option.all_some, any_map, any_eq_true, Function.comp_apply, beq_iff_eq,
      Std.LawfulEqCmp.compare_eq_iff_eq]
    exact exists_congr fun n => and_congr_right fun _ => eq_comm

end IntTest

omit [Unicode] in
/--
Over integer partitions, trees of the given tests keep every file with a row
of theirs exactly if each test that is true of a number is true of its text.
-/
theorem integer_pruning_iff {key : Str}
    (hpath : ∀ k v, (extractPartitions key).lookup k = some v →
      (decimalValue v).isSome)
    (tests : IntTest → Prop) (htests : ∀ t, tests t → t.isOrder = true ∧
      ((extractPartitions key).lookup t.field).isSome = true) :
    (∀ tree : AndOr IntTest, (∀ t ∈ tree.leaves, tests t) → ∀ row : Str → Int,
      (∀ k v, (extractPartitions key).lookup k = some v →
        decimalValue v = some (row k)) →
      (tree.Holds fun t => t.Passes fun n => compare (row t.field) n.toInt) →
      partitionMatches (extractPartitions key) (tree.filter IntTest.toFilter) =
        true) ↔
    ∀ t, tests t → ∀ v z, (extractPartitions key).lookup t.field = some v →
      decimalValue v = some z → (t.Passes fun n => compare z n.toInt) →
        t.Passes fun n => compare v (Str.ofInt n.toInt) := by
  constructor
  · intro h t ht v z hv hz hpasses
    let row (k : Str) : Int :=
      (((extractPartitions key).lookup k).bind decimalValue).getD 0
    have hrow : ∀ k v, (extractPartitions key).lookup k = some v →
        decimalValue v = some (row k) := by
      intro k v hv
      obtain ⟨z, hz⟩ := Option.isSome_iff_exists.mp (hpath k v hv)
      simp [row, hv, hz]
    have hfield : row t.field = z := by simp [row, hv, hz]
    refine (IntTest.partitionMatches_toFilter (htests t ht).1 hv).mp
      (h (.leaf t) (by simpa [AndOr.leaves] using ht) row hrow ?_)
    simpa only [AndOr.Holds, hfield] using hpasses
  · intro h tree hleaves row hrow hholds
    refine AndOr.partitionMatches_filter.mpr (hholds.imp fun t ht hpasses => ?_)
    obtain ⟨hop, hsome⟩ := htests t (hleaves t ht)
    obtain ⟨v, hv⟩ := Option.isSome_iff_exists.mp hsome
    exact (IntTest.partitionMatches_toFilter hop hv).mpr
      (h t (hleaves t ht) v _ hv (hrow _ v hv) hpasses)

end Texts

section Sample

attribute [local instance] asciiUnicode integersOnly

theorem partition_pruning_sound_region :
    letI : FloatText := ⟨fun _ => []⟩
    let key : Str := "logs/region=eu/day=1/part.parquet"
    let filter : FilterExpr := .not (.comparison "region" .eq (.utf8 "eu"))
    let row : Str → ScalarValue := fun field =>
      if field = "region" then .utf8 "eu"
      else if field = "day" then .utf8 "1" else .null
    OverTexts (extractPartitions key) filter ∧
      InPartition (extractPartitions key) row ∧
      partitionMatches (extractPartitions key) filter = false ∧
      typedCells.filterTruth row filter ≠ .tt := by
  let _ : FloatText := ⟨fun _ => []⟩
  have hpairs : (extractPartitions "logs/region=eu/day=1/part.parquet").entries
      = [⟨"day", "1"⟩, ⟨"region", "eu"⟩] := by decide +kernel
  have hrow : InPartition
      (extractPartitions "logs/region=eu/day=1/part.parquet")
      (fun field => if field = "region" then .utf8 "eu"
        else if field = "day" then .utf8 "1" else .null) := by
    intro k v hlookup
    have hmem := AList.mem_lookup_iff.mp hlookup
    rw [hpairs] at hmem
    simp only [mem_cons, not_mem_nil, or_false] at hmem
    rcases hmem with h | h <;> cases h <;> decide +kernel
  exact ⟨rfl, hrow, by decide +kernel,
    partition_pruning_sound _ _ _ rfl hrow (by decide +kernel)⟩

def dayPath : Str := "logs/day=9/part.parquet"

theorem dayPath_lookup {k v : Str}
    (h : (extractPartitions dayPath).lookup k = some v) :
    k = "day" ∧ v = "9" := by
  have hmem := AList.mem_lookup_iff.mp h
  have hpairs : (extractPartitions dayPath).entries = [⟨"day", "9"⟩] := by
    decide +kernel
  rw [hpairs, mem_singleton] at hmem
  cases hmem
  exact ⟨rfl, rfl⟩

/-- A file whose rows all have a status is skipped for `status IS NOT NULL`. -/
theorem notNull_skips_file :
    letI : FloatText := ⟨fun _ => []⟩
    let row (field : Str) : ScalarValue :=
      if field = "day" then .utf8 "9" else .int64 200
    InPartition (extractPartitions dayPath) row ∧
      typedCells.filterTruth row (.isNotNull "status") = .tt ∧
      partitionMatches (extractPartitions dayPath) (.isNotNull "status") =
        false := by
  refine ⟨fun k v h => ?_, by decide +kernel, by decide +kernel⟩
  obtain ⟨rfl, rfl⟩ := dayPath_lookup h
  rfl

theorem notNull_kept_day :
    letI : FloatText := ⟨fun _ => []⟩
    partitionMatches (extractPartitions dayPath)
      (.or (.isNotNull "status") (.comparison "day" .eq (.utf8 "9"))) =
          true := by
  let _ : FloatText := ⟨fun _ => []⟩
  refine (notNull_kept_iff dayPath (.or (.leaf (.inl "status"))
    (.leaf (.inr (.comparison "day" .eq (.utf8 "9"))))) ?_ ?_).mpr (.inr rfl)
  · intro field h
    simp only [AndOr.leaves, mem_append, mem_singleton, reduceCtorEq, or_false]
      at h
    cases h
    decide +kernel
  · intro f h
    simp only [AndOr.leaves, mem_append, mem_singleton, reduceCtorEq, false_or]
      at h
    cases h
    rw [Satisfied]
    decide +kernel

/-- Day 9 is before day 10, but the text `9` is not before the text `10`. -/
theorem integer_order_skips_file :
    letI : FloatText := ⟨fun _ => []⟩
    decimalValue "9" = some 9 ∧
      (IntTest.compare "day" .lt 10).Passes
      (fun n => compare (9 : Int) n.toInt) ∧
      partitionMatches (extractPartitions dayPath)
      (.comparison "day" .lt (.int64 10)) = false := by
  refine ⟨by decide, ?_, by decide +kernel⟩
  change scalarCompare.byOrder .lt (compare (9 : Int) (10 : Int64).toInt) = .tt
  decide

theorem integer_pruning_keeps_day :
    letI : FloatText := ⟨fun _ => []⟩
    partitionMatches (extractPartitions dayPath)
        (.comparison "day" .gte (.int64 5)) = true := by
  let _ : FloatText := ⟨fun _ => []⟩
  refine (@integer_pruning_iff _ dayPath (fun k v h => ?_)
    (· = .compare "day" .gte 5) ?_).mpr
    ?_ (.leaf (.compare "day" .gte 5)) (by simp [AndOr.leaves]) (fun _ => 9)
      (fun k v h => ?_) ?_
  · rw [(dayPath_lookup h).2]
    decide
  · rintro _ rfl
    decide +kernel
  · rintro _ rfl v z hv - -
    rw [(dayPath_lookup hv).2]
    change scalarCompare.byOrder .gte
      (compare "9".toList (Str.ofInt (5 : Int64).toInt)) = .tt
    decide +kernel
  · rw [(dayPath_lookup h).2]
    decide
  · change scalarCompare.byOrder .gte (compare (9 : Int) (5 : Int64).toInt) =
      .tt
    decide

end Sample

end Fuse.Connectors
