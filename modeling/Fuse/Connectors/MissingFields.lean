import Fuse.Connectors.QueryDsl
import Fuse.Connectors.SqlText

/-!
# Missing fields

The filters of the Elasticsearch and MongoDB connectors beside those of the
OpenSearch connector.  All three evaluate a filter with two truth values, leaf
by leaf; where a field is missing SQL has a third.  What can go wrong is a
question about one leaf at a time and about negation.
-/

namespace Fuse.Connectors

open Foundation Fuse.Core List QueryDsl

namespace Elasticsearch

variable [FloatOps] [FloatText]

def scalarToWildcard : ScalarValue → Str
  | .utf8 s => wildcardPattern s
  | .int64 n => Str.ofInt n.toInt
  | .float64 f => FloatText.display f
  | .boolean b => if b then "true" else "false"
  | .null => []

def textDsl (field : Str) (_ : ComparisonOp) (value : ScalarValue) : QueryDsl :=
  .wildcard field (scalarToWildcard value) true

def translateFilter : FilterExpr → QueryDsl := filterDsl (comparisonDsl textDsl)

end Elasticsearch

/-! ## MongoDB -/

inductive BsonFilter where
  | and (left right : BsonFilter)
  | or (left right : BsonFilter)
  | nor (inner : BsonFilter)
  | eq (field : Str) (value : ScalarValue)
  | ne (field : Str) (value : ScalarValue)
  | order (field : Str) (op : ComparisonOp) (value : ScalarValue)
  | regex (field pattern options : Str)
  | inList (field : Str) (values : List ScalarValue)
  | exists (field : Str) (present : Bool)

namespace Mongo

def likeRegex : ScalarValue → Str
  | .utf8 s => Str.replace "_" "." (Str.replace "%" ".*" s)
  | _ => []

def regexOptions : ComparisonOp → Str
  | .iLike => "i"
  | _ => []

def comparisonToBson (field : Str) (op : ComparisonOp) (value : ScalarValue) :
    BsonFilter :=
  match op with
  | .eq => .eq field value
  | .neq => .ne field value
  | .lt => .order field .lt value
  | .lte => .order field .lte value
  | .gt => .order field .gt value
  | .gte => .order field .gte value
  | op => .regex field (likeRegex value) (regexOptions op)

def filterToBson : FilterExpr → BsonFilter
  | .and l r => .and (filterToBson l) (filterToBson r)
  | .or l r => .or (filterToBson l) (filterToBson r)
  | .not inner => .nor (filterToBson inner)
  | .comparison field op value => comparisonToBson field op value
  | .inList field values => .inList field values
  | .isNull field => .exists field false
  | .isNotNull field => .exists field true

variable [FloatOps] [NativeText]

/-- `null` equals a missing field. -/
def storedEq (value : ScalarValue) (stored : Option ScalarValue) : Bool :=
  if value = .null then stored.getD .null = .null
  else typedCompare .eq (stored.getD .null) value = .tt

/-- `$lte` and `$gte` hold of what is equal. -/
def storedOrder (op : ComparisonOp) (value : ScalarValue)
    (stored : Option ScalarValue) : Bool :=
  if value = .null then (op = .lte || op = .gte) && stored.getD .null = .null
  else typedCompare op (stored.getD .null) value = .tt

def storedRegex (pattern options : Str) (stored : Option ScalarValue) : Bool :=
  match stored with
  | some (.utf8 s) => NativeText.regex pattern options s
  | _ => false

end Mongo

def BsonFilter.holds [FloatOps] [NativeText] (doc : Document) :
    BsonFilter → Bool
  | .and l r => l.holds doc && r.holds doc
  | .or l r => l.holds doc || r.holds doc
  | .nor inner => !inner.holds doc
  | .eq field value => Mongo.storedEq value (doc field)
  | .ne field value => !Mongo.storedEq value (doc field)
  | .order field op value => Mongo.storedOrder op value (doc field)
  | .regex field pattern options =>
    Mongo.storedRegex pattern options (doc field)
  | .inList field values => values.any fun v => Mongo.storedEq v (doc field)
  | .exists field present => (doc field).isSome == present

/-! ## Two-valued evaluation -/

structure Leaves where
  compare : ComparisonOp → ScalarValue → Option ScalarValue → Bool
  isIn : List ScalarValue → Option ScalarValue → Bool
  present : Option ScalarValue → Bool

def Leaves.eval (leaves : Leaves) (doc : Document) : FilterExpr → Bool
  | .and l r => leaves.eval doc l && leaves.eval doc r
  | .or l r => leaves.eval doc l || leaves.eval doc r
  | .not f => !leaves.eval doc f
  | .comparison field op value => leaves.compare op value (doc field)
  | .inList field values => leaves.isIn values (doc field)
  | .isNull field => !leaves.present (doc field)
  | .isNotNull field => leaves.present (doc field)

/-- The filters over `AND`, `OR`, comparisons and `IN` with given operators
and literals, with `NOT` or without. -/
structure FilterLanguage where
  negation : Bool
  comparisons : Set (ComparisonOp × ScalarValue)
  lists : Set (List ScalarValue)

namespace FilterLanguage

def Has (lang : FilterLanguage) : FilterExpr → Prop
  | .and l r => lang.Has l ∧ lang.Has r
  | .or l r => lang.Has l ∧ lang.Has r
  | .not f => lang.negation = true ∧ lang.Has f
  | .comparison _ op value => (op, value) ∈ lang.comparisons
  | .inList _ values => values ∈ lang.lists
  | .isNull _ => False
  | .isNotNull _ => False

def Constant (lang : FilterLanguage) : Prop :=
  lang.comparisons = ∅ ∧ ∀ values ∈ lang.lists, values = []

end FilterLanguage

section Soundness

variable [Unicode] [FloatOps] (leaves : Leaves)

def SoundOnMissing (holds : Document → FilterExpr → Bool)
    (lang : FilterLanguage) : Prop :=
  ∀ (f : FilterExpr) (doc : Document), lang.Has f →
    (∃ field ∈ filterFields f, doc field = none) → holds doc f = true →
      typedCells.filterTruth doc.row f = .tt

def inTruth (values : List ScalarValue) (c : ScalarValue) : Truth :=
  Truth.any (values.map fun v => typedCompare .eq c v)

def SoundComparison (op : ComparisonOp) (value : ScalarValue) : Prop :=
  ∀ stored, leaves.compare op value stored = true →
    typedCells.satisfies op (stored.getD .null) value = .tt

def SoundList (values : List ScalarValue) : Prop :=
  ∀ stored, leaves.isIn values stored = true →
    inTruth values (stored.getD .null) = .tt

theorem satisfies_null (op : ComparisonOp) (value : ScalarValue) :
    typedCells.satisfies op .null value = .unknown := by cases op <;> rfl

omit [Unicode] in
theorem inTruth_null_ne (values : List ScalarValue) :
    inTruth values .null ≠ .tt := by
  intro h
  obtain ⟨v, -, hv⟩ := mem_map.mp (Truth.any_eq_tt.mp h)
  rw [typedCompare_null_left] at hv
  cases hv

variable {values : List ScalarValue}

omit [Unicode] in
theorem inTruth_null (h : values ≠ []) : inTruth values .null = .unknown := by
  have hff : inTruth values .null ≠ .ff := by
    intro hff
    obtain ⟨v, vs, rfl⟩ := exists_cons_of_ne_nil h
    have hv := Truth.any_eq_ff.mp hff _ (mem_map_of_mem mem_cons_self)
    rw [typedCompare_null_left] at hv
    cases hv
  have htt := inTruth_null_ne values
  cases hvalue : inTruth values .null <;> simp_all

variable {leaves} {lang : FilterLanguage}

theorem eval_sound (hneg : lang.negation = false)
    (hcompare : ∀ p ∈ lang.comparisons, SoundComparison leaves p.1 p.2)
    (hlist : ∀ values ∈ lang.lists, SoundList leaves values) {doc : Document}
    {f : FilterExpr} (hhas : lang.Has f) (h : leaves.eval doc f = true) :
    typedCells.filterTruth doc.row f = .tt := by
  induction f with
  | and l r ihl ihr =>
    obtain ⟨hl, hr⟩ := Bool.and_eq_true_iff.mp h
    exact Truth.and_eq_tt.mpr ⟨ihl hhas.1 hl, ihr hhas.2 hr⟩
  | or l r ihl ihr =>
    refine Truth.or_eq_tt.mpr ?_
    rcases Bool.or_eq_true_iff.mp h with hl | hr
    · exact .inl (ihl hhas.1 hl)
    · exact .inr (ihr hhas.2 hr)
  | not f _ =>
    cases hneg.symm.trans hhas.1
  | comparison field op value => exact hcompare (op, value) hhas _ h
  | inList field values => exact hlist values hhas _ h
  | isNull field | isNotNull field => exact hhas.elim

theorem eval_constant (hconst : lang.Constant)
    (hlist : ∀ values ∈ lang.lists, SoundList leaves values) {doc : Document}
    {f : FilterExpr} (hhas : lang.Has f) : typedCells.filterTruth doc.row f =
      .ofBool (leaves.eval doc f) := by
  induction f with
  | and l r ihl ihr | or l r ihl ihr =>
    rw [CellModel.filterTruth, ihl hhas.1, ihr hhas.2, Leaves.eval]
    cases leaves.eval doc l <;> cases leaves.eval doc r <;> rfl
  | not f ih =>
    rw [CellModel.filterTruth, ih hhas.2, Leaves.eval]
    cases leaves.eval doc f <;> rfl
  | comparison field op value =>
    have hmem : (op, value) ∈ lang.comparisons := hhas
    rw [hconst.1] at hmem
    exact hmem.elim
  | inList field values =>
    obtain rfl := hconst.2 values hhas
    have hfalse : leaves.isIn [] (doc field) = false := by
      by_contra hmatch
      have := hlist [] hhas _ (Bool.not_eq_false _ ▸ hmatch)
      cases this
    rw [Leaves.eval, hfalse]
    rfl
  | isNull field | isNotNull field => exact hhas.elim

def oneField (stored : Option ScalarValue) : Document :=
  fun field => if field = "a" then stored else none

theorem soundComparison_of_sound (h : SoundOnMissing leaves.eval lang)
    {op : ComparisonOp}
    {value : ScalarValue} (hmem : (op, value) ∈ lang.comparisons) :
    SoundComparison leaves op value := by
  intro stored hmatch
  -- the same comparison of a second field, which is missing, adds nothing
  have htrue := h (.or (.comparison "a" op value) (.comparison "b" op value))
    (oneField stored) ⟨hmem, hmem⟩ ⟨"b", by simp [filterFields], rfl⟩
    (Bool.or_eq_true_iff.mpr (.inl hmatch))
  rcases Truth.or_eq_tt.mp htrue with ha | hb
  · exact ha
  · have hnull := satisfies_null op value
    exact absurd (hnull.symm.trans hb) (by decide)

theorem soundList_of_sound (h : SoundOnMissing leaves.eval lang)
    (hmem : values ∈ lang.lists) : SoundList leaves values := by
  intro stored hmatch
  have htrue := h (.or (.inList "a" values) (.inList "b" values))
    (oneField stored) ⟨hmem, hmem⟩ ⟨"b", by simp [filterFields], rfl⟩
    (Bool.or_eq_true_iff.mpr (.inl hmatch))
  rcases Truth.or_eq_tt.mp htrue with ha | hb
  · exact ha
  · exact absurd hb (inTruth_null_ne values)

theorem constant_of_sound (h : SoundOnMissing leaves.eval lang)
    (hneg : lang.negation = true) : lang.Constant := by
  constructor
  · refine Set.eq_empty_of_forall_notMem fun p hmem => ?_
    have hsound := soundComparison_of_sound h hmem none
    have hnull := satisfies_null p.1 p.2
    have hfalse : leaves.compare p.1 p.2 none = false := by
      by_contra hmatch
      exact absurd (hnull.symm.trans (hsound (Bool.not_eq_false _ ▸ hmatch)))
        (by decide)
    have htrue := h (.not (.comparison "a" p.1 p.2)) (fun _ => none)
      ⟨hneg, hmem⟩ ⟨"a", by simp [filterFields], rfl⟩
      (by rw [Leaves.eval, Leaves.eval, hfalse]; rfl)
    exact absurd (hnull.symm.trans (Truth.not_eq_tt.mp htrue)) (by decide)
  · intro values hmem
    by_contra hne
    have hsound := soundList_of_sound h hmem none
    have hnull := inTruth_null hne
    have hfalse : leaves.isIn values none = false := by
      by_contra hmatch
      exact inTruth_null_ne values (hsound (Bool.not_eq_false _ ▸ hmatch))
    have htrue := h (.not (.inList "a" values)) (fun _ => none)
      ⟨hneg, hmem⟩ ⟨"a", by simp [filterFields], rfl⟩
      (by rw [Leaves.eval, Leaves.eval, hfalse]; rfl)
    exact absurd (hnull.symm.trans (Truth.not_eq_tt.mp htrue)) (by decide)

theorem sound_iff_leaves :
    SoundOnMissing leaves.eval lang ↔ (lang.negation = false ∨ lang.Constant) ∧
      (∀ p ∈ lang.comparisons, SoundComparison leaves p.1 p.2) ∧
      ∀ values ∈ lang.lists, SoundList leaves values := by
  constructor
  · intro h
    refine ⟨?_, fun p hmem => soundComparison_of_sound h hmem,
      fun values hmem => soundList_of_sound h hmem⟩
    cases hneg : lang.negation with
    | false => exact .inl rfl
    | true => exact .inr (constant_of_sound h hneg)
  · rintro ⟨hneg | hconst, hcompare, hlist⟩ f doc hhas - hmatch
    · exact eval_sound hneg hcompare hlist hhas hmatch
    · rw [eval_constant hconst hlist hhas, hmatch]
      rfl

end Soundness

/-! ## The three back ends -/

inductive Backend where
  | openSearch | elasticsearch | mongoDb
  deriving DecidableEq, Repr

theorem exists_of_any {p : ScalarValue → Bool} {stored : Option ScalarValue}
    (h : (indexed (oneField stored) "a").any p = true) :
    ∃ c, stored = some c ∧ p c = true := by
  obtain ⟨c, hc, hp⟩ := (Option.any_eq_true p _).mp h
  exact ⟨c, (Option.filter_eq_some_iff.mp hc).1, hp⟩

theorem typedCompare_scalarToJson [FloatOps] {op : ComparisonOp}
    {c v : ScalarValue} (h : typedCompare op c (scalarToJson v) = .tt) :
    typedCompare op c v = .tt := by
  by_cases hfinite : Finite v
  · rwa [scalarToJson_eq hfinite] at h
  cases v with
  | float64 f =>
    rw [show scalarToJson (.float64 f) = .null from if_neg hfinite,
      typedCompare_null_right] at h
    cases h
  | _ => exact absurd trivial hfinite

theorem typedCompare_boolean_unknown [FloatOps] {v : ScalarValue}
    (h : scalarToJson v = .null)
    (op : ComparisonOp) : typedCompare op (.boolean true) v = .unknown := by
  cases v with
  | boolean b => cases h
  | _ => rfl

section Backends

variable [Unicode] [FloatOps] [FloatText] [NativeText]

def Backend.holds (b : Backend) (doc : Document) (f : FilterExpr) : Bool :=
  match b with
  | .openSearch => (OpenSearch.translateFilter f).holds doc
  | .elasticsearch => (Elasticsearch.translateFilter f).holds doc
  | .mongoDb => (Mongo.filterToBson f).holds doc

def dslLeaves (comparison : Str → ComparisonOp → ScalarValue → QueryDsl) :
    Leaves where
  compare op value stored := (comparison "a" op value).holds (oneField stored)
  isIn values stored := (stored.filter (· ≠ .null)).any fun c =>
    (values.map scalarToJson).any fun v => typedCompare .eq c v = .tt
  present stored := (stored.filter (· ≠ .null)).isSome

def mongoLeaves : Leaves where
  compare op value stored :=
    (Mongo.comparisonToBson "a" op value).holds (oneField stored)
  isIn values stored := values.any fun v => Mongo.storedEq v stored
  present := Option.isSome

def Backend.leaves : Backend → Leaves
  | .openSearch => dslLeaves OpenSearch.translateComparison
  | .elasticsearch => dslLeaves (comparisonDsl Elasticsearch.textDsl)
  | .mongoDb => mongoLeaves

def ReadsOwnField (comparison : Str → ComparisonOp → ScalarValue → QueryDsl) :
    Prop :=
  ∀ field op value doc, (comparison field op value).holds doc =
    (comparison "a" op value).holds (oneField (doc field))

variable {text : Str → ComparisonOp → ScalarValue → QueryDsl}
  {comparison : Str → ComparisonOp → ScalarValue → QueryDsl} {op : ComparisonOp}

omit [FloatText] in
theorem comparisonDsl_readsOwnField (h : ReadsOwnField text) :
    ReadsOwnField (comparisonDsl text) := by
  intro field op value doc
  have hindexed : indexed doc field = indexed (oneField (doc field)) "a" := rfl
  cases op with
  | neq =>
    change (bool [] [] 0 [.term field (scalarToJson value)]).holds
      doc = (bool [] [] 0 [.term "a" (scalarToJson value)]).holds _
    rw [holds_mustNot, holds_mustNot, holds, holds, hindexed]
  | eq =>
    change (term field _).holds doc = (term "a" _).holds _
    rw [holds, holds, hindexed]
  | like | iLike | contains => exact h field _ value doc
  | _ =>
    change (range field _ _).holds doc = (range "a" _ _).holds _
    rw [holds, holds, hindexed]

omit [FloatText] in
theorem openSearch_readsOwnField :
    ReadsOwnField OpenSearch.translateComparison := by
  refine comparisonDsl_readsOwnField fun field op value doc => ?_
  have hindexed : indexed doc field = indexed (oneField (doc field)) "a" := rfl
  unfold OpenSearch.textDsl
  split <;> simp only [holds, hindexed]

theorem elasticsearch_readsOwnField :
    ReadsOwnField (comparisonDsl Elasticsearch.textDsl) := by
  refine comparisonDsl_readsOwnField fun field op value doc => ?_
  have hindexed : indexed doc field = indexed (oneField (doc field)) "a" := rfl
  simp [Elasticsearch.textDsl, holds, hindexed]

omit [FloatText] in
theorem holds_filterDsl (h : ReadsOwnField comparison) (doc : Document)
    (f : FilterExpr) :
    (filterDsl comparison f).holds doc = (dslLeaves comparison).eval doc f := by
  induction f with
  | and l r ihl ihr => rw [holds_and, ihl, ihr, Leaves.eval]
  | or l r ihl ihr => rw [holds_or, ihl, ihr, Leaves.eval]
  | not f ih => rw [holds_not, ih, Leaves.eval]
  | comparison field op value => exact h field op value doc
  | inList field values => rfl
  | isNull field => exact holds_mustNot _
  | isNotNull field => rfl

omit [Unicode] [FloatText] in
private theorem holds_filterToBson (doc : Document) (f : FilterExpr) :
    (Mongo.filterToBson f).holds doc = mongoLeaves.eval doc f := by
  induction f with
  | and l r ihl ihr | or l r ihl ihr =>
    rw [Mongo.filterToBson, BsonFilter.holds, ihl, ihr, Leaves.eval]
  | not f ih => rw [Mongo.filterToBson, BsonFilter.holds, ih, Leaves.eval]
  | comparison field op value => cases op <;> rfl
  | inList field values => rfl
  | isNull field =>
    change ((doc field).isSome == false) = !(doc field).isSome
    cases (doc field).isSome <;> rfl
  | isNotNull field =>
    change ((doc field).isSome == true) = (doc field).isSome
    cases (doc field).isSome <;> rfl

theorem Backend.holds_eq (b : Backend) : b.holds = b.leaves.eval := by
  funext doc f
  cases b with
  | openSearch => exact holds_filterDsl openSearch_readsOwnField doc f
  | elasticsearch => exact holds_filterDsl elasticsearch_readsOwnField doc f
  | mongoDb => exact holds_filterToBson doc f

/-! ## Which leaves are sound -/

/-- The comparisons by order that never match what is not true.  `!=` matches
a missing field; a `null` bound leaves a range of the DSL open; in MongoDB
`null` equals a missing field. -/
def Backend.safeOrder (b : Backend) (op : ComparisonOp) (value : ScalarValue) :
    Bool :=
  match b, op with
  | _, .neq => false
  | .mongoDb, .lt => true
  | .mongoDb, .gt => true
  | .mongoDb, _ => value ≠ .null
  | _, .eq => true
  | _, _ => scalarToJson value ≠ .null

/-- A pattern is safe if every text it accepts at the back end satisfies the
comparison. -/
def Backend.SafeComparison (b : Backend) (op : ComparisonOp)
    (value : ScalarValue) : Prop :=
  if op.isOrder then b.safeOrder op value = true
  else SoundComparison b.leaves op value

def Backend.safeList (b : Backend) (values : List ScalarValue) : Bool :=
  match b with
  | .mongoDb => .null ∉ values
  | _ => true

omit [FloatText] in
private theorem range_sound_iff (value : ScalarValue) :
    (∀ stored, (range "a" op (scalarToJson value)).holds (oneField stored) =
      true → typedCompare op (stored.getD .null) value = .tt) ↔
    scalarToJson value ≠ .null := by
  constructor
  · intro h hjson
    have hopen : (range "a" op (scalarToJson value)).holds
        (oneField (some (.boolean true))) = true := by
      rw [holds, hjson]
      rfl
    have htrue := h _ hopen
    rw [Option.getD_some, typedCompare_boolean_unknown hjson] at htrue
    cases htrue
  · intro hjson stored h
    rw [holds] at h
    obtain ⟨c, rfl, hrange⟩ := exists_of_any h
    rw [inRange, decide_eq_false hjson, Bool.false_or, decide_eq_true_iff]
      at hrange
    exact typedCompare_scalarToJson hrange

omit [FloatText] in
theorem dsl_order_sound_iff (hop : op.isOrder = true) (value : ScalarValue) :
    SoundComparison (dslLeaves (comparisonDsl text)) op value ↔
      Backend.safeOrder .openSearch op value = true := by
  cases op with
  | eq =>
    refine iff_of_true (fun stored h => ?_) rfl
    change (term "a" (scalarToJson value)).holds _ = true at h
    rw [holds] at h
    obtain ⟨c, rfl, hc⟩ := exists_of_any h
    exact typedCompare_scalarToJson (of_decide_eq_true hc)
  | neq =>
    refine iff_of_false (fun h => ?_) Bool.false_ne_true
    have hmissing : (dslLeaves (comparisonDsl text)).compare .neq value none =
        true := by
      change (bool [] [] 0 [.term "a" (scalarToJson value)]).holds
        (oneField none) = true
      rw [holds_mustNot, holds]
      rfl
    have htrue := h none hmissing
    rw [Option.getD_none, satisfies_null] at htrue
    cases htrue
  | like | iLike | contains => cases hop
  | _ => exact (range_sound_iff value).trans (decide_eq_true_iff).symm

omit [FloatText] in
/-- `$lt` and `$gt` never match NULL. -/
theorem mongo_order_sound_iff (hop : op.isOrder = true) (value : ScalarValue) :
    SoundComparison mongoLeaves op value ↔
    Backend.safeOrder .mongoDb op value = true := by
  by_cases hnull : value = .null
  · subst hnull
    cases op with
    | lt | gt => exact iff_of_true (fun stored h => by cases h) rfl
    | neq =>
      refine iff_of_false (fun h => ?_) nofun
      cases h (some (.boolean true)) rfl
    | like | iLike | contains => cases hop
    | _ =>
      refine iff_of_false (fun h => ?_) nofun
      cases h none rfl
  · have hsafe : decide (value ≠ .null) = true := decide_eq_true hnull
    cases op with
    | neq =>
      refine iff_of_false (fun h => ?_) nofun
      have hmissing : mongoLeaves.compare .neq value none = true := by
        change (!Mongo.storedEq value none) = true
        rw [Mongo.storedEq, if_neg hnull, Option.getD_none,
          typedCompare_null_left]
        rfl
      have htrue := h none hmissing
      rw [Option.getD_none, satisfies_null] at htrue
      cases htrue
    | eq =>
      refine iff_of_true (fun stored h => ?_) hsafe
      change Mongo.storedEq value stored = true at h
      rw [Mongo.storedEq, if_neg hnull] at h
      exact of_decide_eq_true h
    | like | iLike | contains => cases hop
    | _ =>
      refine iff_of_true (fun stored h => ?_) (by first | exact hsafe | rfl)
      change Mongo.storedOrder _ value stored = true at h
      rw [Mongo.storedOrder, if_neg hnull] at h
      exact of_decide_eq_true h

theorem Backend.sound_comparison_iff (b : Backend) (op : ComparisonOp)
    (value : ScalarValue) :
    SoundComparison b.leaves op value ↔ b.SafeComparison op value := by
  rw [Backend.SafeComparison]
  split
  · rename_i hop
    cases b with
    | openSearch => exact dsl_order_sound_iff hop value
    | elasticsearch =>
      have hsame : Backend.safeOrder .elasticsearch op value =
          Backend.safeOrder .openSearch op value := by cases op <;> rfl
      rw [hsame]
      exact dsl_order_sound_iff hop value
    | mongoDb => exact mongo_order_sound_iff hop value
  · rfl

omit [FloatText] in
theorem dsl_list_sound (values : List ScalarValue) :
    SoundList (dslLeaves comparison) values := by
  intro stored h
  obtain ⟨c, rfl, hc⟩ := exists_of_any h
  obtain ⟨_, hmem, heq⟩ := any_eq_true.mp hc
  obtain ⟨v, hv, rfl⟩ := mem_map.mp hmem
  have htrue := typedCompare_scalarToJson (of_decide_eq_true heq)
  exact Truth.any_eq_tt.mpr (mem_map.mpr ⟨v, hv, htrue⟩)

omit [Unicode] [FloatText] in
theorem mongo_list_sound_iff (values : List ScalarValue) :
    SoundList mongoLeaves values ↔ .null ∉ values := by
  constructor
  · intro h hmem
    have hmissing : mongoLeaves.isIn values none = true :=
      any_eq_true.mpr ⟨_, hmem, rfl⟩
    exact inTruth_null_ne values (h none hmissing)
  · intro hnull stored h
    obtain ⟨v, hv, heq⟩ := any_eq_true.mp h
    have hne : v ≠ .null := fun hvn => hnull (hvn ▸ hv)
    rw [Mongo.storedEq, if_neg hne] at heq
    exact Truth.any_eq_tt.mpr (mem_map.mpr ⟨v, hv, of_decide_eq_true heq⟩)

theorem Backend.sound_list_iff (b : Backend) (values : List ScalarValue) :
    SoundList b.leaves values ↔ b.safeList values = true := by
  cases b with
  | openSearch | elasticsearch => exact iff_of_true (dsl_list_sound values) rfl
  | mongoDb =>
    exact (mongo_list_sound_iff values).trans decide_eq_true_iff.symm

/-- A match on a document with a missing field is a filter that is true,
exactly if filters have no `NOT` and only safe leaves. -/
theorem missing_fields_null_iff (b : Backend) (lang : FilterLanguage) :
    SoundOnMissing b.holds lang ↔ (lang.negation = false ∨ lang.Constant) ∧
      (∀ p ∈ lang.comparisons, b.SafeComparison p.1 p.2) ∧
      ∀ values ∈ lang.lists, b.safeList values = true := by
  rw [b.holds_eq, sound_iff_leaves]
  refine and_congr_right fun _ => and_congr ?_ ?_
  · exact forall₂_congr fun p _ => b.sound_comparison_iff p.1 p.2
  · exact forall₂_congr fun values _ => b.sound_list_iff values

end Backends

section Sample

attribute [local instance] asciiUnicode integersOnly noText

/-- `NOT status = 500` and `status != 500` match the empty document. -/
theorem negation_matches_missing :
    letI : FloatText := ⟨fun _ => []⟩
    let doc : Document := fun _ => none
    ∀ (b : Backend) (filter : FilterExpr),
      filter = .not (.comparison "status" .eq (.int64 500)) ∨
        filter = .comparison "status" .neq (.int64 500) →
      b.holds doc filter = true ∧
        typedCells.filterTruth doc.row filter = .unknown := by
  intro doc b filter hfilter
  cases b <;> rcases hfilter with rfl | rfl <;> exact ⟨rfl, rfl⟩

end Sample

end Fuse.Connectors
