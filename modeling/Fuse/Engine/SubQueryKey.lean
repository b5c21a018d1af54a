import Fuse.Core.Connector
import Fuse.Foundation.DebugText

/-!
# The cache key of a sub-query

`make_key` of `cache_middleware.rs` writes some fields of a sub-query into one
text.  From that text the fields that are written with `Debug` are known, up to
the payload of a NaN; of the table and the projections only the text in front
of them is.
-/

namespace Fuse.Engine

open Foundation Fuse.Core List

/-! ## Debug texts -/

def nan : F64 := BitVec.ofNat 64 0x7FF8000000000000

def isNan (f : F64) : Bool := 0x7FF0000000000000 < f.abs.toNat

def canonFloat (f : F64) : F64 := if isNan f then nan else f

theorem canonFloat_canonFloat (f : F64) :
    canonFloat (canonFloat f) = canonFloat f := by
  by_cases h : isNan f
  · have hf : canonFloat f = nan := if_pos h
    rw [hf]
    decide
  · have hf : canonFloat f = f := if_neg h
    rw [hf, hf]

class FloatDebug where
  text : F64 → Str
  isWord : ∀ f, IsWord (text f)
  text_eq_iff : ∀ f g, text f = text g ↔ canonFloat f = canonFloat g

@[reducible] def bitsDebug : FloatDebug where
  text f := Str.ofNat (canonFloat f).toNat
  isWord f := isWord_ofNat _
  text_eq_iff f g := by
    constructor
    · intro h
      exact BitVec.eq_of_toNat_eq (Str.ofNat_injective h)
    · intro h
      rw [h]

def functionName : AggFunction → Str
  | .count => "Count"
  | .countDistinct => "CountDistinct"
  | .sum => "Sum"
  | .avg => "Avg"
  | .min => "Min"
  | .max => "Max"
  | .approxCountDistinct => "ApproxCountDistinct"
  | .approxPercentile _ => "ApproxPercentile"

section Texts

variable [PlainChars] [FloatDebug]

def scalarDebug : ScalarValue → Str
  | .null => "Null"
  | .boolean b => debugTuple "Boolean" (boolText b)
  | .int64 n => debugTuple "Int64" (Str.ofInt n.toInt)
  | .float64 f => debugTuple "Float64" (FloatDebug.text f)
  | .utf8 s => debugTuple "Utf8" (quoted s)

def opDebug : ComparisonOp → Str
  | .eq => "Eq"
  | .neq => "Neq"
  | .lt => "Lt"
  | .lte => "Lte"
  | .gt => "Gt"
  | .gte => "Gte"
  | .like => "Like"
  | .iLike => "ILike"
  | .contains => "Contains"

def filterDebug : FilterExpr → Str
  | .and l r =>
    debugTuple "And" (filterDebug l ++ (", " : Str) ++ filterDebug r)
  | .or l r => debugTuple "Or" (filterDebug l ++ (", " : Str) ++ filterDebug r)
  | .not e => debugTuple "Not" (filterDebug e)
  | .comparison field op value =>
    debugStruct "Comparison" (("field: " : Str) ++ quoted field ++
      (", op: " : Str) ++ opDebug op ++ (", value: " : Str) ++
      scalarDebug value)
  | .inList field values =>
    debugStruct "In" (("field: " : Str) ++ quoted field ++
      (", values: " : Str) ++ debugList scalarDebug values)
  | .isNull field => debugTuple "IsNull" (quoted field)
  | .isNotNull field => debugTuple "IsNotNull" (quoted field)

def functionDebug : AggFunction → Str
  | .approxPercentile p => debugTuple "ApproxPercentile" (FloatDebug.text p)
  | function => functionName function

def aggregationDebug (a : AggregationExpr) : Str :=
  debugStruct "AggregationExpr"
    (("function: " : Str) ++ functionDebug a.function ++ (", field: " : Str) ++
      debugOption quoted a.field ++ (", alias: " : Str) ++ quoted a.aliasName)

def sortDebug (s : SortExpr) : Str :=
  debugStruct "SortExpr" (("field: " : Str) ++ quoted s.field ++
    (", descending: " : Str) ++ boolText s.descending)

def queryText (query : SubQuery) : Str :=
  query.table ++ ':' :: (Str.joinWith "," query.projections ++
    ':' :: (debugOption filterDebug query.filter ++
    ':' :: (debugList aggregationDebug query.aggregations ++
    ':' :: (debugList quoted query.groupBy ++ ':' ::
      (debugList sortDebug query.sort ++
    ':' :: debugOption Str.ofNat query.limit)))))

end Texts

/-! ## What is known from a text -/

def canonScalar : ScalarValue → ScalarValue
  | .float64 f => .float64 (canonFloat f)
  | value => value

def canonFilter : FilterExpr → FilterExpr
  | .and l r => .and (canonFilter l) (canonFilter r)
  | .or l r => .or (canonFilter l) (canonFilter r)
  | .not e => .not (canonFilter e)
  | .comparison field op value => .comparison field op (canonScalar value)
  | .inList field values => .inList field (values.map canonScalar)
  | .isNull field => .isNull field
  | .isNotNull field => .isNotNull field

def canonFunction : AggFunction → AggFunction
  | .approxPercentile p => .approxPercentile (canonFloat p)
  | function => function

def canonAggregation (a : AggregationExpr) : AggregationExpr :=
  { a with function := canonFunction a.function }

theorem isWord_opDebug (op : ComparisonOp) :
    IsWord (opDebug op) := by cases op <;> decide

theorem opDebug_injective : Function.Injective opDebug := by
  intro op op' h
  cases op <;> cases op' <;> first | rfl | cases h

theorem isWord_functionName (function : AggFunction) :
    IsWord (functionName function) := by
  cases function with
  | approxPercentile p =>
    have hname : IsWord "ApproxPercentile" := by decide
    exact hname
  | _ => decide

theorem readable_sort [PlainChars] : Readable id sortDebug := by
  intro a b rest rest' _ _ h
  have hbody := debugStruct_cancel h
  simp only [append_assoc] at hbody
  obtain ⟨hfield, htail⟩ := quoted_cancel (append_cancel_left hbody)
  obtain ⟨hdescending, hclose⟩ :=
    word_cancel (isWord_boolText _) (isWord_boolText _) (stop_blank _)
      (stop_blank _) (append_cancel_left htail)
  refine ⟨?_, (List.cons.inj (List.cons.inj hclose).2).2⟩
  obtain ⟨field, descending⟩ := a
  obtain ⟨field', descending'⟩ := b
  cases hfield
  cases boolText_injective hdescending
  rfl

theorem takeWhile_functionDebug [FloatDebug] (function : AggFunction)
    {rest : Str} (hrest : Stop rest) :
    (functionDebug function ++ rest).takeWhile isWordChar =
      functionName function := by
  have hword := isWord_functionName function
  cases function with
  | approxPercentile p => exact takeWhile_debugTuple (by decide) _ _
  | _ => exact takeWhile_word hword hrest

theorem readable_function [FloatDebug] :
    Readable canonFunction functionDebug := by
  intro a b rest rest' hrest hrest' h
  have hname := congrArg (List.takeWhile isWordChar) h
  rw [takeWhile_functionDebug a hrest, takeWhile_functionDebug b hrest']
    at hname
  cases a <;> cases b <;> cases hname
  case approxPercentile.approxPercentile p q =>
    obtain ⟨hpq, hr⟩ := wordTuple_cancel (FloatDebug.isWord p)
      (FloatDebug.isWord q) h
    have hcanon := (FloatDebug.text_eq_iff p q).mp hpq
    exact ⟨congrArg AggFunction.approxPercentile hcanon, hr⟩
  all_goals exact ⟨rfl, append_cancel_left h⟩

section Reading

variable [PlainChars] [FloatDebug]

def scalarName : ScalarValue → Str
  | .null => "Null"
  | .boolean _ => "Boolean"
  | .int64 _ => "Int64"
  | .float64 _ => "Float64"
  | .utf8 _ => "Utf8"

theorem takeWhile_scalarDebug (v : ScalarValue) {rest : Str}
    (hrest : Stop rest) :
    (scalarDebug v ++ rest).takeWhile isWordChar = scalarName v := by
  cases v with
  | null =>
    have hname : IsWord "Null" := by decide
    exact takeWhile_word hname hrest
  | boolean b | int64 n | float64 f | utf8 s =>
    exact takeWhile_debugTuple (by decide) _ _

theorem readable_scalar : Readable canonScalar scalarDebug := by
  intro a b rest rest' hrest hrest' h
  have hname := congrArg (List.takeWhile isWordChar) h
  rw [takeWhile_scalarDebug a hrest, takeWhile_scalarDebug b hrest'] at hname
  cases a <;> cases b <;> cases hname
  case null.null => exact ⟨rfl, append_cancel_left h⟩
  case boolean.boolean a b =>
    obtain ⟨hab, hr⟩ := wordTuple_cancel (isWord_boolText a)
      (isWord_boolText b) h
    exact ⟨by rw [boolText_injective hab], hr⟩
  case int64.int64 a b =>
    obtain ⟨hab, hr⟩ := wordTuple_cancel (isWord_ofInt _) (isWord_ofInt _) h
    exact ⟨by rw [Int64.toInt_inj.mp (Str.ofInt_injective hab)], hr⟩
  case float64.float64 f g =>
    obtain ⟨hfg, hr⟩ := wordTuple_cancel (FloatDebug.isWord f)
      (FloatDebug.isWord g) h
    exact ⟨congrArg ScalarValue.float64 ((FloatDebug.text_eq_iff f g).mp hfg),
      hr⟩
  case utf8.utf8 s t =>
    obtain ⟨hst, hr⟩ := quotedTuple_cancel h
    exact ⟨by rw [hst], hr⟩

def filterName : FilterExpr → Str
  | .and _ _ => "And"
  | .or _ _ => "Or"
  | .not _ => "Not"
  | .comparison _ _ _ => "Comparison"
  | .inList _ _ => "In"
  | .isNull _ => "IsNull"
  | .isNotNull _ => "IsNotNull"

theorem takeWhile_filterDebug (e : FilterExpr) (rest : Str) :
    (filterDebug e ++ rest).takeWhile isWordChar = filterName e := by
  cases e with
  | and l r | or l r | not e => exact takeWhile_debugTuple (by decide) _ _
  | comparison field op value | inList field values =>
    exact takeWhile_debugStruct (by decide) _ _
  | isNull field | isNotNull field => exact takeWhile_debugTuple (by decide) _ _

variable {rest rest' : Str}

theorem filterName_eq {e e' : FilterExpr}
    (h : filterDebug e ++ rest = filterDebug e' ++ rest') :
    filterName e = filterName e' := by
  have hname := congrArg (List.takeWhile isWordChar) h
  rwa [takeWhile_filterDebug, takeWhile_filterDebug] at hname

theorem scalarDebug_ne_close (v : ScalarValue) (rest rest' : Str) :
    scalarDebug v ++ rest ≠ ']' :: rest' := by
  intro h
  cases v <;> cases h

def FilterRead (e : FilterExpr) : Prop :=
  ∀ e' rest rest', Stop rest → Stop rest' →
    filterDebug e ++ rest = filterDebug e' ++ rest' →
      canonFilter e = canonFilter e' ∧ rest = rest'

theorem filterPair_cancel {name : Str} {l r l' r' : FilterExpr}
    (hl : FilterRead l) (hr : FilterRead r)
    (h : debugTuple name (filterDebug l ++ (", " : Str) ++ filterDebug r) ++
      rest = debugTuple name
      (filterDebug l' ++ (", " : Str) ++ filterDebug r') ++ rest') :
    canonFilter l = canonFilter l' ∧ canonFilter r = canonFilter r' ∧
        rest = rest' := by
  have hbody := debugTuple_cancel h
  simp only [append_assoc] at hbody
  have hcomma : ∀ s, Stop ((", " : Str) ++ s) := stop_append (by decide)
  obtain ⟨hleft, htail⟩ := hl _ _ _ (hcomma _) (hcomma _) hbody
  obtain ⟨hright, hclose⟩ :=
    hr _ _ _ (stop_close _) (stop_close _) (append_cancel_left htail)
  exact ⟨hleft, hright, (List.cons.inj hclose).2⟩

theorem comparison_cancel {field field' : Str} {op op' : ComparisonOp}
    {value value' : ScalarValue}
    (h : filterDebug (.comparison field op value) ++ rest = filterDebug
      (.comparison field' op' value') ++ rest') :
    canonFilter (.comparison field op value) =
      canonFilter (.comparison field' op' value') ∧ rest = rest' := by
  have hbody := debugStruct_cancel h
  simp only [append_assoc] at hbody
  have hcomma : ∀ s, Stop ((", value: " : Str) ++ s) := stop_append (by decide)
  obtain ⟨rfl, hop⟩ := quoted_cancel (append_cancel_left hbody)
  obtain ⟨hops, hvalue⟩ := word_cancel (isWord_opDebug op) (isWord_opDebug op')
    (hcomma _) (hcomma _) (append_cancel_left hop)
  obtain ⟨hvalues, hclose⟩ := readable_scalar _ _ _ _ (stop_blank _)
    (stop_blank _) (append_cancel_left hvalue)
  refine ⟨?_, (List.cons.inj (List.cons.inj hclose).2).2⟩
  rw [canonFilter, canonFilter, opDebug_injective hops, hvalues]

theorem inList_cancel {field field' : Str} {values values' : List ScalarValue}
    (h : filterDebug (.inList field values) ++ rest =
      filterDebug (.inList field' values') ++ rest') :
    canonFilter (.inList field values) = canonFilter (.inList field' values') ∧
        rest = rest' := by
  have hbody := debugStruct_cancel h
  simp only [append_assoc] at hbody
  have hlist := readable_debugList readable_scalar scalarDebug_ne_close
  obtain ⟨rfl, hvalues⟩ := quoted_cancel (append_cancel_left hbody)
  obtain ⟨heq, hclose⟩ := hlist _ _ _ _ (stop_blank _) (stop_blank _)
    (append_cancel_left hvalues)
  refine ⟨?_, (List.cons.inj (List.cons.inj hclose).2).2⟩
  rw [canonFilter, canonFilter, heq]

theorem filterRead (e : FilterExpr) : FilterRead e := by
  induction e <;> intro e' rest rest' _ _ h <;> cases e'
    <;> cases filterName_eq h
  case and.and ihl ihr _ _ _ _ | or.or ihl ihr _ _ _ _ =>
    obtain ⟨hl, hr, hrest⟩ := filterPair_cancel ihl ihr h
    exact ⟨by rw [canonFilter, canonFilter, hl, hr], hrest⟩
  case not.not ih _ _ _ =>
    obtain ⟨he, hclose⟩ :=
      ih _ _ _ (stop_close _) (stop_close _) (debugTuple_cancel h)
    exact ⟨by rw [canonFilter, canonFilter, he], (List.cons.inj hclose).2⟩
  case comparison.comparison => exact comparison_cancel h
  case inList.inList => exact inList_cancel h
  case isNull.isNull | isNotNull.isNotNull =>
    obtain ⟨rfl, hrest⟩ := quotedTuple_cancel h
    exact ⟨rfl, hrest⟩

theorem readable_filter : Readable canonFilter filterDebug :=
  fun e => filterRead e

theorem readable_aggregation : Readable canonAggregation aggregationDebug := by
  intro a b rest rest' _ _ h
  have hbody := debugStruct_cancel h
  simp only [append_assoc] at hbody
  have hfield : ∀ s, Stop ((", field: " : Str) ++ s) := stop_append (by decide)
  have halias : ∀ s, Stop ((", alias: " : Str) ++ s) := stop_append (by decide)
  obtain ⟨hfunction, htail⟩ := readable_function _ _ _ _ (hfield _) (hfield _)
    (append_cancel_left hbody)
  obtain ⟨hfields, htail⟩ := readable_debugOption readable_quoted _ _ _ _
    (halias _) (halias _) (append_cancel_left htail)
  obtain ⟨haliases, hclose⟩ := quoted_cancel (append_cancel_left htail)
  rw [Option.map_id_fun] at hfields
  refine ⟨?_, (List.cons.inj (List.cons.inj hclose).2).2⟩
  obtain ⟨function, field, aliasName⟩ := a
  obtain ⟨function', field', aliasName'⟩ := b
  cases hfields
  cases haliases
  simp [canonAggregation, hfunction]

end Reading

/-! ## Brackets and strings are closed -/

theorem neutral_function [FloatDebug] (function : AggFunction) :
    Neutral (functionDebug function) := by
  have hword := isWord_functionName function
  cases function with
  | approxPercentile p =>
    exact neutral_tuple (by decide) (neutral_word (FloatDebug.isWord p))
  | _ => exact neutral_word hword

theorem neutral_sort [PlainChars] (s : SortExpr) : Neutral (sortDebug s) := by
  have hfield : Neutral "field: " := neutral_plain (by decide)
  have hdescending : Neutral ", descending: " := neutral_plain (by decide)
  have hfront := (hfield.append (neutral_quoted s.field)).append hdescending
  exact neutral_struct (by decide)
    (hfront.append (neutral_word (isWord_boolText s.descending)))

section Closing

variable [PlainChars] [FloatDebug]

theorem neutral_scalar (v : ScalarValue) : Neutral (scalarDebug v) := by
  cases v with
  | null =>
    have hname : IsWord "Null" := by decide
    exact neutral_word hname
  | boolean b =>
    exact neutral_tuple (by decide) (neutral_word (isWord_boolText b))
  | int64 n => exact neutral_tuple (by decide) (neutral_word (isWord_ofInt _))
  | float64 f =>
    exact neutral_tuple (by decide) (neutral_word (FloatDebug.isWord f))
  | utf8 s => exact neutral_tuple (by decide) (neutral_quoted s)

theorem neutral_filter (e : FilterExpr) : Neutral (filterDebug e) := by
  have hcomma : Neutral ", " := neutral_plain (by decide)
  have hfield : Neutral "field: " := neutral_plain (by decide)
  have hop : Neutral ", op: " := neutral_plain (by decide)
  have hvalue : Neutral ", value: " := neutral_plain (by decide)
  have hvalues : Neutral ", values: " := neutral_plain (by decide)
  induction e with
  | and l r ihl ihr | or l r ihl ihr =>
    exact neutral_tuple (by decide) ((ihl.append hcomma).append ihr)
  | not e ih => exact neutral_tuple (by decide) ih
  | comparison field op value =>
    have hfront := ((hfield.append (neutral_quoted field)).append hop).append
      (neutral_word (isWord_opDebug op))
    exact neutral_struct (by decide)
      ((hfront.append hvalue).append (neutral_scalar value))
  | inList field values =>
    have hfront := (hfield.append (neutral_quoted field)).append hvalues
    exact neutral_struct (by decide)
      (hfront.append (neutral_debugList neutral_scalar values))
  | isNull field | isNotNull field =>
    exact neutral_tuple (by decide) (neutral_quoted field)

theorem neutral_aggregation (a : AggregationExpr) :
    Neutral (aggregationDebug a) := by
  have hfunction : Neutral "function: " := neutral_plain (by decide)
  have hfield : Neutral ", field: " := neutral_plain (by decide)
  have halias : Neutral ", alias: " := neutral_plain (by decide)
  have hfront := (hfunction.append (neutral_function a.function)).append hfield
  have hmiddle := hfront.append (neutral_debugOption neutral_quoted a.field)
  exact neutral_struct (by decide)
    ((hmiddle.append halias).append (neutral_quoted a.aliasName))

end Closing

/-! ## Sub-queries of one key -/

structure SameKey (q q' : SubQuery) : Prop where
  front : q.table ++ ':' :: Str.joinWith "," q.projections =
    q'.table ++ ':' :: Str.joinWith "," q'.projections
  filter : q.filter.map canonFilter = q'.filter.map canonFilter
  aggregations : q.aggregations.map canonAggregation =
    q'.aggregations.map canonAggregation
  groupBy : q.groupBy = q'.groupBy
  sort : q.sort = q'.sort
  limit : q.limit = q'.limit

theorem queryText_eq [PlainChars] [FloatDebug] (q : SubQuery) :
    queryText q = (((((q.table ++ ':' :: Str.joinWith "," q.projections) ++
      ':' :: debugOption filterDebug q.filter) ++
      ':' :: debugList aggregationDebug q.aggregations) ++ ':' ::
    debugList quoted q.groupBy) ++ ':' :: debugList sortDebug q.sort) ++
      ':' :: debugOption Str.ofNat q.limit := by simp [queryText]

theorem text_canonFloat [FloatDebug] (f : F64) :
    FloatDebug.text (canonFloat f) = FloatDebug.text f :=
  (FloatDebug.text_eq_iff _ _).mpr (canonFloat_canonFloat f)

section Keys

variable [PlainChars] [FloatDebug]

theorem sameKey_of_queryText {q q' : SubQuery}
    (h : queryText q = queryText q') : SameKey q q' := by
  rw [queryText_eq, queryText_eq] at h
  have hnat := fun n => neutral_word (isWord_ofNat n)
  -- the colon in front of the last part is the last one outside brackets
  obtain ⟨h, hlimit⟩ := colonFree_cancel (colonFree_debugOption hnat _)
    (colonFree_debugOption hnat _) h
  obtain ⟨h, hsort⟩ := colonFree_cancel (colonFree_debugList neutral_sort _)
    (colonFree_debugList neutral_sort _) h
  obtain ⟨h, hgroup⟩ := colonFree_cancel (colonFree_debugList neutral_quoted _)
    (colonFree_debugList neutral_quoted _) h
  obtain ⟨h, haggs⟩ :=
    colonFree_cancel (colonFree_debugList neutral_aggregation _)
      (colonFree_debugList neutral_aggregation _) h
  obtain ⟨hfront, hfilter⟩ :=
    colonFree_cancel (colonFree_debugOption neutral_filter _)
      (colonFree_debugOption neutral_filter _) h
  have hgroupBy := (readable_debugList readable_quoted
    (fun _ _ _ h => by cases h)).norm_eq hgroup
  have hsorts :=
    (readable_debugList readable_sort (fun _ _ _ h => by cases h)).norm_eq hsort
  have hlimits := (readable_debugOption readable_ofNat).norm_eq hlimit
  simp only [map_id, Option.map_id_fun, id_eq] at hgroupBy hsorts hlimits
  exact {
    front := hfront
    filter := (readable_debugOption readable_filter).norm_eq hfilter
    aggregations := (readable_debugList readable_aggregation
      (fun _ _ _ h => by cases h)).norm_eq haggs
    groupBy := hgroupBy
    sort := hsorts
    limit := hlimits }

private theorem scalarDebug_canon (v : ScalarValue) :
    scalarDebug (canonScalar v) = scalarDebug v := by
  cases v with
  | float64 f => rw [canonScalar, scalarDebug, scalarDebug, text_canonFloat]
  | _ => rfl

theorem filterDebug_canon (e : FilterExpr) :
    filterDebug (canonFilter e) = filterDebug e := by
  induction e with
  | and l r ihl ihr | or l r ihl ihr =>
    rw [canonFilter, filterDebug, filterDebug, ihl, ihr]
  | not e ih => rw [canonFilter, filterDebug, filterDebug, ih]
  | comparison field op value =>
    rw [canonFilter, filterDebug, filterDebug, scalarDebug_canon]
  | inList field values =>
    rw [canonFilter, filterDebug, filterDebug, debugList, debugList,
      map_map, funext (f := scalarDebug ∘ canonScalar) scalarDebug_canon]
  | isNull field | isNotNull field => rfl

private theorem aggregationDebug_canon (a : AggregationExpr) :
    aggregationDebug (canonAggregation a) = aggregationDebug a := by
  have hfunction : functionDebug (canonFunction a.function) =
      functionDebug a.function := by
    cases a.function with
    | approxPercentile p =>
      rw [canonFunction, functionDebug, functionDebug, text_canonFloat]
    | _ => rfl
  rw [aggregationDebug, aggregationDebug, canonAggregation, hfunction]

/-- Two sub-queries have one text exactly when `SameKey` holds of them. -/
theorem queryText_eq_iff (q q' : SubQuery) :
    queryText q = queryText q' ↔ SameKey q q' := by
  refine ⟨sameKey_of_queryText, fun h => ?_⟩
  have hfilter : ∀ o : Option FilterExpr,
      debugOption filterDebug (o.map canonFilter) =
        debugOption filterDebug o := by
    intro o
    cases o with
    | none => rfl
    | some e => exact congrArg (debugTuple "Some") (filterDebug_canon e)
  have haggs : ∀ xs : List AggregationExpr,
      debugList aggregationDebug (xs.map canonAggregation) =
        debugList aggregationDebug xs := by
    intro xs
    rw [debugList, debugList, map_map,
      funext (f := aggregationDebug ∘ canonAggregation) aggregationDebug_canon]
  rw [queryText_eq, queryText_eq, h.front, ← hfilter, h.filter, hfilter,
    ← haggs, h.aggregations, haggs, h.groupBy, h.sort, h.limit]

end Keys

end Fuse.Engine
