import Fuse.Core.TypedCells
import Mathlib.Data.Set.Basic

/-!
# Filters in the query DSL

`translate_filter` of the OpenSearch connector, and what the queries it writes
match.  A document holds one value in a field or lacks the field.  A clause of
the DSL that compares reads the values as SQL does, but it either matches or
not: there is no third truth value.
-/

namespace Fuse.Connectors

open Foundation Fuse.Core List

/-! ## Documents and queries -/

abbrev Document := Str → Option ScalarValue

def Document.row (doc : Document) : Str → ScalarValue :=
  fun field => (doc field).getD .null

/-- The queries the connectors write; a literal is the JSON value of a
scalar. -/
inductive QueryDsl where
  | bool (must should : List QueryDsl) (minimumShouldMatch : Nat)
    (mustNot : List QueryDsl)
  | term (field : Str) (value : ScalarValue)
  | terms (field : Str) (values : List ScalarValue)
  | range (field : Str) (bound : ComparisonOp) (value : ScalarValue)
  | exists (field : Str)
  | wildcard (field : Str) (pattern : Str) (caseInsensitive : Bool)
  | match (field : Str) (query : ScalarValue)
  | matchAll

/-- Text search of the back ends: the analysed `match` query, given the query
and the stored value, and regular expressions with their options. -/
class NativeText where
  fullText : ScalarValue → ScalarValue → Bool
  regex : Str → Str → Str → Bool

def wildcardTokens (escaped : Bool) : Str → List LikeToken
  | [] => []
  | c :: pattern =>
    if escaped then .char c :: wildcardTokens false pattern
    else if c = '\\' then wildcardTokens true pattern
    else if c = '*' then .anyChars :: wildcardTokens false pattern
    else if c = '?' then .anyChar :: wildcardTokens false pattern
    else .char c :: wildcardTokens false pattern

section Matching

variable [Unicode] [FloatOps] [NativeText]

def indexed (doc : Document) (field : Str) : Option ScalarValue :=
  (doc field).filter (· ≠ .null)

def inRange (bound : ComparisonOp) (value c : ScalarValue) : Bool :=
  value = .null || typedCompare bound c value = .tt

def wildcardMatches (pattern : Str) (caseInsensitive : Bool) :
    ScalarValue → Bool
  | .utf8 s => likeMatches (CellModel.sameChar caseInsensitive)
                 (wildcardTokens false pattern) s
  | _ => false

mutual

def QueryDsl.holds (doc : Document) : QueryDsl → Bool
  | .bool must should minimum mustNot =>
    allHold doc must && minimum ≤ countHold doc should &&
      countHold doc mustNot = 0
  | .term field value =>
    (indexed doc field).any fun c => typedCompare .eq c value = .tt
  | .terms field values =>
    (indexed doc field).any fun c =>
      values.any fun v => typedCompare .eq c v = .tt
  | .range field bound value =>
    (indexed doc field).any (inRange bound value)
  | .exists field => (indexed doc field).isSome
  | .wildcard field pattern caseInsensitive =>
    (indexed doc field).any (wildcardMatches pattern caseInsensitive)
  | .match field query => (indexed doc field).any (NativeText.fullText query)
  | .matchAll => true

def allHold (doc : Document) : List QueryDsl → Bool
  | [] => true
  | q :: qs => q.holds doc && allHold doc qs

def countHold (doc : Document) : List QueryDsl → Nat
  | [] => 0
  | q :: qs => (if q.holds doc then 1 else 0) + countHold doc qs

end

end Matching

section Translation

variable [FloatOps]

/-- JSON has no text for an infinity or a NaN: they become `null`. -/
def scalarToJson : ScalarValue → ScalarValue
  | .float64 f => if (FloatOps.jsonText f).isSome then .float64 f else .null
  | v => v

def wildcardPattern (pattern : Str) : Str :=
  Str.replace "_" "?" (Str.replace "%" "*" pattern)

/-- The clause of one comparison; `text` writes those that read text. -/
def comparisonDsl (text : Str → ComparisonOp → ScalarValue → QueryDsl)
    (field : Str) (op : ComparisonOp) (value : ScalarValue) : QueryDsl :=
  match op with
  | .eq => .term field (scalarToJson value)
  | .neq => .bool [] [] 0 [.term field (scalarToJson value)]
  | .lt => .range field .lt (scalarToJson value)
  | .lte => .range field .lte (scalarToJson value)
  | .gt => .range field .gt (scalarToJson value)
  | .gte => .range field .gte (scalarToJson value)
  | op => text field op value

def filterDsl (comparison : Str → ComparisonOp → ScalarValue → QueryDsl) :
    FilterExpr → QueryDsl
  | .and l r => .bool [filterDsl comparison l, filterDsl comparison r] [] 0 []
  | .or l r => .bool [] [filterDsl comparison l, filterDsl comparison r] 1 []
  | .not inner => .bool [] [] 0 [filterDsl comparison inner]
  | .comparison field op value => comparison field op value
  | .inList field values => .terms field (values.map scalarToJson)
  | .isNull field => .bool [] [] 0 [.exists field]
  | .isNotNull field => .exists field

namespace OpenSearch

/-- `LIKE` and `ILIKE` become wildcards, of a text only; `CONTAINS` is the
native full-text query. -/
def textDsl (field : Str) (op : ComparisonOp) (value : ScalarValue) :
    QueryDsl :=
  match op, value with
  | .contains, value => .match field (scalarToJson value)
  | .iLike, .utf8 pattern => .wildcard field (wildcardPattern pattern) true
  | _, .utf8 pattern => .wildcard field (wildcardPattern pattern) false
  | _, _ => .matchAll

def translateComparison : Str → ComparisonOp → ScalarValue → QueryDsl :=
  comparisonDsl textDsl

def translateFilter : FilterExpr → QueryDsl := filterDsl translateComparison

end OpenSearch

end Translation

section Tree

variable [Unicode] [FloatOps] [NativeText] {doc : Document}
  {comparison : Str → ComparisonOp → ScalarValue → QueryDsl}

@[simp] theorem holds_and (l r : FilterExpr) :
    (filterDsl comparison (.and l r)).holds doc =
    ((filterDsl comparison l).holds doc &&
        (filterDsl comparison r).holds doc) := by
  simp [filterDsl, QueryDsl.holds, allHold, countHold]

@[simp] theorem holds_or (l r : FilterExpr) :
    (filterDsl comparison (.or l r)).holds doc =
    ((filterDsl comparison l).holds doc ||
        (filterDsl comparison r).holds doc) := by
  simp only [filterDsl, QueryDsl.holds, allHold, countHold]
  by_cases hl : (filterDsl comparison l).holds doc <;>
    by_cases hr : (filterDsl comparison r).holds doc <;> simp [hl, hr]

theorem holds_mustNot (q : QueryDsl) :
    (QueryDsl.bool [] [] 0 [q]).holds doc = !q.holds doc := by
  simp only [QueryDsl.holds, allHold, countHold]
  by_cases h : q.holds doc <;> simp [h]

@[simp] theorem holds_not (f : FilterExpr) :
    (filterDsl comparison (.not f)).holds doc =
      !(filterDsl comparison f).holds doc :=
  holds_mustNot _

end Tree

/-! ## Complete documents -/

/-- A comparison by order with a literal of a given set, anywhere in the
tree. -/
def OverLiterals (allowed : Set ScalarValue) : FilterExpr → Prop
  | .and l r => OverLiterals allowed l ∧ OverLiterals allowed r
  | .or l r => OverLiterals allowed l ∧ OverLiterals allowed r
  | .not f => OverLiterals allowed f
  | .comparison _ op value => op.isOrder = true ∧ value ∈ allowed
  | .inList _ values => ∀ v ∈ values, v ∈ allowed
  | .isNull _ => True
  | .isNotNull _ => True

/-- Every field the filter names is there, and of the type of the literals it
is compared with. -/
def Complete (doc : Document) : FilterExpr → Prop
  | .and l r => Complete doc l ∧ Complete doc r
  | .or l r => Complete doc l ∧ Complete doc r
  | .not f => Complete doc f
  | .comparison field _ value =>
    ∃ c, doc field = some c ∧ c ≠ .null ∧ c.type? = value.type?
  | .inList field values =>
    ∃ c, doc field = some c ∧ c ≠ .null ∧ ∀ v ∈ values, c.type? = v.type?
  | .isNull field => ∃ c, doc field = some c ∧ c ≠ .null
  | .isNotNull field => ∃ c, doc field = some c ∧ c ≠ .null

section CompleteDocuments

variable [FloatOps]

def Finite : ScalarValue → Prop
  | .float64 f => (FloatOps.jsonText f).isSome = true
  | _ => True

theorem scalarToJson_eq {v : ScalarValue} (h : Finite v) :
    scalarToJson v = v := by
  cases v with
  | float64 f => exact if_pos h
  | _ => rfl

variable {field : Str}

omit [FloatOps] in
theorem indexed_of_some {doc : Document} {c : ScalarValue}
    (h : doc field = some c) (hc : c ≠ .null) : indexed doc field = some c := by
  simp [indexed, h, hc]

variable [Unicode] [NativeText] {doc : Document}

theorem comparison_complete {op : ComparisonOp} {value : ScalarValue}
    (hop : op.isOrder = true) (hfinite : Finite value) (hvalue : value ≠ .null)
    (h : Complete doc (.comparison field op value)) :
    typedCells.filterTruth doc.row (.comparison field op value) =
      .ofBool ((OpenSearch.translateComparison field op value).holds doc) := by
  obtain ⟨c, hdoc, hc, htype⟩ := h
  have hindexed := indexed_of_some hdoc hc
  have hrow : doc.row field = c := by simp [Document.row, hdoc]
  have hdefinite := typedCompare_definite hop htype hvalue
  have hjson := scalarToJson_eq hfinite
  have hopen : (decide (value = .null)) = false := decide_eq_false hvalue
  cases op with
  | neq =>
    change typedCompare .neq (doc.row field) value = .ofBool
      ((QueryDsl.bool [] [] 0 [.term field (scalarToJson value)]).holds doc)
    have heq : typedCompare .eq c value ≠ .unknown :=
      typedCompare_definite rfl htype hvalue
    rw [holds_mustNot, QueryDsl.holds, hindexed, hjson, hrow, typedCompare_neq,
      Option.any_some]
    revert heq
    cases typedCompare .eq c value <;> decide
  | eq =>
    change typedCompare .eq (doc.row field) value =
      .ofBool ((QueryDsl.term field (scalarToJson value)).holds doc)
    rw [QueryDsl.holds, hindexed, hjson, hrow, Option.any_some,
      Truth.ofBool_decide_tt hdefinite]
  | like | iLike | contains => cases hop
  | _ =>
    change typedCompare _ (doc.row field) value =
      .ofBool ((QueryDsl.range field _ (scalarToJson value)).holds doc)
    rw [QueryDsl.holds, hindexed, hjson, hrow, Option.any_some, inRange,
      hopen, Bool.false_or, Truth.ofBool_decide_tt hdefinite]

theorem inList_complete {values : List ScalarValue}
    (hfinite : ∀ v ∈ values, Finite v) (hvalues : ∀ v ∈ values, v ≠ .null)
    (h : Complete doc (.inList field values)) :
    typedCells.filterTruth doc.row (.inList field values) =
      .ofBool ((QueryDsl.terms field (values.map scalarToJson)).holds doc) := by
  obtain ⟨c, hdoc, hc, htype⟩ := h
  have hrow : doc.row field = c := by simp [Document.row, hdoc]
  have hjson : values.map scalarToJson = values :=
    (map_congr_left fun v hv => scalarToJson_eq (hfinite v hv)).trans (map_id _)
  rw [QueryDsl.holds, indexed_of_some hdoc hc, hjson, Option.any_some,
    ← Truth.any_ofBool]
  refine congrArg Truth.any (map_congr_left fun v hv => ?_)
  rw [hrow, Truth.ofBool_decide_tt
    (typedCompare_definite rfl (htype v hv) (hvalues v hv))]
  rfl

private theorem exists_complete (h : ∃ c, doc field = some c ∧ c ≠ .null) :
    typedCells.filterTruth doc.row (.isNotNull field) =
      .ofBool ((QueryDsl.exists field).holds doc) := by
  obtain ⟨c, hdoc, hc⟩ := h
  have hnotNull : typedCells.isNull c = false := beq_false_of_ne hc
  have hrow : doc.row field = c := by simp [Document.row, hdoc]
  rw [QueryDsl.holds, indexed_of_some hdoc hc]
  change Truth.ofBool (!typedCells.isNull (doc.row field)) = _
  rw [hrow, hnotNull]
  rfl

theorem filter_complete {allowed : Set ScalarValue} {f : FilterExpr}
    (hfinite : ∀ v ∈ allowed, Finite v) (hnull : .null ∉ allowed)
    (hover : OverLiterals allowed f) (hcomplete : Complete doc f) :
    typedCells.filterTruth doc.row f = .ofBool
    ((OpenSearch.translateFilter f).holds doc) := by
  have hne : ∀ v ∈ allowed, v ≠ .null := fun v hv h => hnull (h ▸ hv)
  rw [OpenSearch.translateFilter]
  induction f with
  | and l r ihl ihr =>
    rw [CellModel.filterTruth, ihl hover.1 hcomplete.1, ihr hover.2 hcomplete.2,
      holds_and]
    cases (filterDsl OpenSearch.translateComparison l).holds doc <;>
      cases (filterDsl OpenSearch.translateComparison r).holds doc <;> rfl
  | or l r ihl ihr =>
    rw [CellModel.filterTruth, ihl hover.1 hcomplete.1, ihr hover.2 hcomplete.2,
      holds_or]
    cases (filterDsl OpenSearch.translateComparison l).holds doc <;>
      cases (filterDsl OpenSearch.translateComparison r).holds doc <;> rfl
  | not f ih =>
    rw [CellModel.filterTruth, ih hover hcomplete, holds_not]
    cases (filterDsl OpenSearch.translateComparison f).holds doc <;> rfl
  | comparison field op value =>
    exact comparison_complete hover.1 (hfinite value hover.2)
      (hne value hover.2) hcomplete
  | inList field values =>
    exact inList_complete (fun v hv => hfinite v (hover v hv))
      (fun v hv => hne v (hover v hv)) hcomplete
  | isNull field =>
    have hexists := exists_complete hcomplete
    rw [filterDsl, holds_mustNot]
    have hnot : typedCells.filterTruth doc.row (.isNull field) =
        (typedCells.filterTruth doc.row (.isNotNull field)).not := by
      change Truth.ofBool (typedCells.isNull (doc.row field)) =
        (Truth.ofBool (!typedCells.isNull (doc.row field))).not
      cases typedCells.isNull (doc.row field) <;> rfl
    rw [hnot, hexists]
    cases (QueryDsl.exists field).holds doc <;> rfl
  | isNotNull field => exact exists_complete hcomplete

private theorem range_of_not_finite {x : F64} {op : ComparisonOp}
    (hop : op = .lt ∨ op = .gt) (hx : ¬ Finite (.float64 x)) :
    (OpenSearch.translateFilter (.comparison "x" op (.float64 x))).holds
      (fun _ => some (.float64 F64.zero)) = true := by
  have hjson : scalarToJson (.float64 x) = .null := if_neg hx
  have hindexed : indexed (fun _ => some (.float64 F64.zero)) "x" =
      some (.float64 F64.zero) := indexed_of_some rfl (by simp)
  rcases hop with rfl | rfl
  · change (QueryDsl.range _ .lt _).holds _ = true
    rw [QueryDsl.holds, hindexed, hjson]
    rfl
  · change (QueryDsl.range _ .gt _).holds _ = true
    rw [QueryDsl.holds, hindexed, hjson]
    rfl

/-- The query of a filter matches a complete document as the filter says,
exactly if JSON can write the literals. -/
theorem opensearch_complete_iff (hlt : ∀ x y : F64, FloatOps.lt x y = true →
      FloatOps.lt y x = false) (allowed : Set ScalarValue)
    (hnull : .null ∉ allowed) :
    (∀ (f : FilterExpr) (doc : Document), OverLiterals allowed f →
      Complete doc f → ((OpenSearch.translateFilter f).holds doc = true ↔
          typedCells.filterTruth doc.row f = .tt)) ↔
    ∀ v ∈ allowed, Finite v := by
  constructor
  · intro h v hv
    by_contra hfinite
    cases v with
    | float64 x =>
      -- both `<` and `>` match, and only one of them can be true
      have hboth : ∀ op, op = .lt ∨ op = .gt →
          F64.holds op F64.zero x = true := by
        intro op hop
        have hover : OverLiterals allowed (.comparison "x" op (.float64 x)) :=
          ⟨by rcases hop with rfl | rfl <;> rfl, hv⟩
        have hcomplete : Complete (fun _ => some (.float64 F64.zero))
            (.comparison "x" op (.float64 x)) := ⟨_, rfl, by simp, rfl⟩
        have htrue := (h _ _ hover hcomplete).mp
          (range_of_not_finite hop hfinite)
        rcases hop with rfl | rfl <;> exact Truth.ofBool_eq_tt.mp htrue
      have hbelow : FloatOps.lt F64.zero x = true := hboth .lt (.inl rfl)
      have habove : FloatOps.lt x F64.zero = true := hboth .gt (.inr rfl)
      rw [hlt _ _ hbelow] at habove
      cases habove
    | _ => exact hfinite trivial
  · intro hfinite f doc hover hcomplete
    rw [filter_complete hfinite hnull hover hcomplete, Truth.ofBool_eq_tt]

end CompleteDocuments

section Sample

attribute [local instance] asciiUnicode

/-- `f64::INFINITY`, which a literal such as `1e999` is parsed to. -/
def F64.infinity : F64 := BitVec.ofNat 64 0x7FF0000000000000

@[reducible] def zeroAndInfinity : FloatOps where
  parse s := if s = "1e999" then some F64.infinity else none
  add x _ := x
  sub x _ := x
  lt x y := x = F64.zero && y = F64.infinity
  le x y := x = y || x = F64.zero && y = F64.infinity
  ofInt64 _ := F64.zero
  jsonText x := if x = F64.infinity then none else some "0"

@[reducible] def noText : NativeText where
  fullText _ _ := false
  regex _ _ _ := false

attribute [local instance] zeroAndInfinity noText

/-- `price > 1e999` matches a document with price zero. -/
theorem open_range_matches :
    let filter : FilterExpr := .comparison "price" .gt (.float64 F64.infinity)
    let doc : Document := fun _ => some (.float64 F64.zero)
    Complete doc filter ∧
      (OpenSearch.translateFilter filter).holds doc = true ∧
      typedCells.filterTruth doc.row filter = .ff :=
  ⟨⟨_, rfl, by decide, rfl⟩, by decide +kernel, by decide +kernel⟩

theorem opensearch_complete_statuses :
    let filter : FilterExpr := .not (.comparison "status" .gte (.int64 500))
    let doc : Document := fun _ => some (.int64 404)
    (OpenSearch.translateFilter filter).holds doc = true ↔
      typedCells.filterTruth doc.row filter = .tt := by
  have hlt : ∀ x y : F64, FloatOps.lt x y = true → FloatOps.lt y x = false := by
    intro x y h
    obtain ⟨rfl, rfl⟩ : x = F64.zero ∧
      y = F64.infinity := by simpa [FloatOps.lt] using h
    decide
  have hnull : ScalarValue.null ∉ ({.int64 500} : Set ScalarValue) := nofun
  have hfinite : ∀ v ∈ ({.int64 500} : Set ScalarValue), Finite v := by
    rintro v rfl
    trivial
  exact (opensearch_complete_iff hlt _ hnull).mpr hfinite _ _ ⟨rfl, rfl⟩
    ⟨_, rfl, by decide, rfl⟩

end Sample

end Fuse.Connectors
